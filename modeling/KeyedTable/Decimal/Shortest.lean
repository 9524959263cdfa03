import KeyedTable.Decimal.Double

namespace KeyedTable

open Decimal (twoTo tenTo)

inductive Tie
  | up
  | even
  deriving DecidableEq, Repr

namespace Double

/-- `digits * 10 ^ exponent`. -/
structure Shortest where
  digits : Nat
  exponent : Int
  deriving DecidableEq, Repr

def onGrid (num den : Nat) (g : Int) : Nat × Nat :=
  if 0 ≤ g then (num, den * tenTo g.toNat) else (num * tenTo (-g).toNat, den)

def reaches (num den : Nat) (p : Int) : Bool :=
  let parts := onGrid num den p
  parts.2 ≤ parts.1

def decimalExponent (num den : Nat) : Int :=
  let guess := (Int.ofNat num.log2 - Int.ofNat den.log2) * 30103 / 100000
  if reaches num den (guess + 1) then guess + 1
  else if reaches num den guess then guess
  else guess - 1

/-- The neighbour of `value / unit` in whole numbers that lies between `low` and `high`, all over
`unit`; the nearer one if both do. -/
def pick (tie : Tie) (closed : Bool) (low value high unit : Nat) : Option Nat :=
  let q := value / unit
  let inside (c : Nat) : Bool :=
    if closed then low ≤ c * unit && c * unit ≤ high else low < c * unit && c * unit < high
  let twice := 2 * (value % unit)
  let upward := twice > unit || (twice == unit && (tie == .up || q % 2 == 1))
  if inside q && inside (q + 1) then some (if upward then q + 1 else q)
  else if inside q then some q
  else if inside (q + 1) then some (q + 1)
  else none

/-- The shortest decimal of `m * 2 ^ e`, tried with `length`, `length + 1`, … digits; seventeen
always suffice. -/
def search (tie : Tie) (m : Nat) (e : Int) (p : Int) : (tries length : Nat) → Shortest
  | 0, _ => ⟨0, 0⟩
  | tries + 1, length =>
    let g := p - Int.ofNat length + 1
    let den : Nat := if 0 ≤ e - 2 then 1 else twoTo (2 - e).toNat
    let factor : Nat := if 0 ≤ e - 2 then twoTo (e - 2).toNat else 1
    let below := if m == twoTo 52 && e > -1074 then 1 else 2
    let at10 (n : Nat) : Nat := (onGrid (n * factor) den g).1
    let unit := (onGrid 0 den g).2
    match pick tie (m % 2 == 0) (at10 (4 * m - below)) (at10 (4 * m)) (at10 (4 * m + 2)) unit with
    | some c => if c = tenTo length then ⟨1, p + 1⟩ else ⟨c, g⟩
    | none => search tie m e p tries (length + 1)

def shortest (tie : Tie) (m : Nat) (e : Int) : Shortest :=
  let parts := ratio m e
  search tie m e (decimalExponent parts.1 parts.2) 17 1

def digitText (n : Nat) : String := String.ofList (Nat.toDigits 10 n)

def zeros (n : Nat) : String := String.ofList (List.replicate n '0')

def positional (d : Shortest) (whole : String) : String :=
  if 0 ≤ d.exponent then digitText d.digits ++ zeros d.exponent.toNat ++ whole
  else
    let places := (-d.exponent).toNat
    let ds := Nat.toDigits 10 d.digits
    if places < ds.length then
      String.ofList (ds.take (ds.length - places)) ++ "." ++
        String.ofList (ds.drop (ds.length - places))
    else "0." ++ zeros (places - ds.length) ++ String.ofList ds

def scientific (d : Shortest) : String :=
  let ds := Nat.toDigits 10 d.digits
  let exponent := d.exponent + Int.ofNat ds.length - 1
  let fraction := if ds.length ≤ 1 then "" else "." ++ String.ofList (ds.drop 1)
  String.ofList (ds.take 1) ++ fraction ++ "e" ++
    (if exponent < 0 then "-" else "+") ++ digitText exponent.natAbs

def signText (negative : Bool) : String := if negative then "-" else ""

def plain : Double → String
  | .nan => "NaN"
  | .infinite s => signText s ++ "inf"
  | .finite s m e =>
    if m = 0 then signText s ++ "0" else signText s ++ positional (shortest .up m e) ""

def json : Double → String
  | .nan | .infinite _ => "null"
  | .finite s m e =>
    if m = 0 then signText s ++ "0.0"
    else
      let d := shortest .even m e
      let magnitude := d.exponent + Int.ofNat (Nat.toDigits 10 d.digits).length - 1
      signText s ++ if -5 ≤ magnitude && magnitude < 16 then positional d ".0" else scientific d

end Double

end KeyedTable
