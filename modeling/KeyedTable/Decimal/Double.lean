import KeyedTable.Decimal.Integer

namespace KeyedTable

open Decimal (twoTo tenTo)

inductive Double
  | nan
  | infinite (negative : Bool)
  | finite (negative : Bool) (significand : Nat) (exponent : Int)
  deriving DecidableEq, Repr

namespace Double

def zero (negative : Bool) : Double := .finite negative 0 (-1074)

def isFinite : Double → Bool
  | .finite _ _ _ => true
  | _ => false

def roundQuotient (num den : Nat) : Nat :=
  let q := num / den
  let twice := 2 * (num % den)
  if twice > den || (twice == den && q % 2 == 1) then q + 1 else q

def scaled (num den : Nat) (e : Int) : Nat × Nat :=
  if 0 ≤ e then (num, den * twoTo e.toNat) else (num * twoTo (-e).toNat, den)

def ofRatio (negative : Bool) (num den : Nat) : Double :=
  if num = 0 then zero negative
  else
    let guess : Int := max (Int.ofNat num.log2 - Int.ofNat den.log2 - 53) (-1074)
    let parts := scaled num den guess
    let e := if parts.1 / parts.2 < twoTo 53 then guess else guess + 1
    let parts := scaled num den e
    let m := roundQuotient parts.1 parts.2
    let carried := m == twoTo 53
    let e := if carried then e + 1 else e
    if e > 971 then .infinite negative
    else .finite negative (if carried then twoTo 52 else m) e

def ofNat (n : Nat) : Double := ofRatio false n 1

/-- The double nearest to `digits * 10 ^ exponent`. Powers of ten that are out of reach of every
double are not computed. -/
def ofDecimal (negative : Bool) (digits : Nat) (exponent : Int) : Double :=
  if digits = 0 then zero negative
  else if exponent > 400 then .infinite negative
  else if exponent < -400 - Int.ofNat digits.log2 then zero negative
  else if 0 ≤ exponent then ofRatio negative (digits * tenTo exponent.toNat) 1
  else ofRatio negative digits (tenTo (-exponent).toNat)

def negate : Double → Double
  | .nan => .nan
  | .infinite s => .infinite !s
  | .finite s m e => .finite (!s) m e

def ratio (m : Nat) (e : Int) : Nat × Nat :=
  if 0 ≤ e then (m * twoTo e.toNat, 1) else (m, twoTo (-e).toNat)

def mul : Double → Double → Double
  | .nan, _ | _, .nan => .nan
  | .infinite s, .infinite t => .infinite (s != t)
  | .infinite s, .finite t n _ => if n = 0 then .nan else .infinite (s != t)
  | .finite s m _, .infinite t => if m = 0 then .nan else .infinite (s != t)
  | .finite s m e, .finite t n f =>
    let parts := ratio (m * n) (e + f)
    ofRatio (s != t) parts.1 parts.2

def div : Double → Double → Double
  | .nan, _ | _, .nan => .nan
  | .infinite _, .infinite _ => .nan
  | .infinite s, .finite t _ _ => .infinite (s != t)
  | .finite s _ _, .infinite t => zero (s != t)
  | .finite s m e, .finite t n f =>
    if n = 0 then if m = 0 then .nan else .infinite (s != t)
    else
      let parts := ratio m (e - f)
      ofRatio (s != t) parts.1 (parts.2 * n)

def signed (negative : Bool) (m : Nat) : Int := if negative then -Int.ofNat m else Int.ofNat m

/-- The order of the numbers; a NaN has none, and both zeros are equal. -/
def order : Double → Double → Option Ordering
  | .nan, _ | _, .nan => none
  | .infinite s, .infinite t => some (compare t.toNat s.toNat)
  | .infinite s, .finite _ _ _ => some (if s then .lt else .gt)
  | .finite _ _ _, .infinite t => some (if t then .gt else .lt)
  | .finite s m e, .finite t n f =>
    let low := min e f
    some (compare (signed s m * Int.ofNat (twoTo (e - low).toNat))
      (signed t n * Int.ofNat (twoTo (f - low).toNat)))

def bits : Double → Nat
  | .nan => 0x7FF8 * twoTo 48
  | .infinite s => (s.toNat * twoTo 11 + 0x7FF) * twoTo 52
  | .finite s m e =>
    if m < twoTo 52 then s.toNat * twoTo 63 + m
    else (s.toNat * twoTo 11 + (e + 1075).toNat) * twoTo 52 + (m - twoTo 52)

def lowercase (cs : List Char) : List Char := cs.map Char.toLower

def digitsValue (cs : List Char) : Nat := cs.foldl (fun n c => n * 10 + Decimal.digitValue c) 0

def readExponent : List Char → Option Int
  | [] => some 0
  | c :: cs =>
    if c != 'e' && c != 'E' then none
    else
      let parts : Bool × List Char := match cs with
        | '+' :: ds => (false, ds)
        | '-' :: ds => (true, ds)
        | ds => (false, ds)
      if parts.2.isEmpty || !parts.2.all Char.isDigit then none
      else some (signed parts.1 (digitsValue parts.2))

def readMagnitude (negative : Bool) (cs : List Char) : Option Double :=
  let whole := cs.takeWhile Char.isDigit
  let afterWhole := cs.dropWhile Char.isDigit
  let parts : List Char × List Char := match afterWhole with
    | '.' :: ds => (ds.takeWhile Char.isDigit, ds.dropWhile Char.isDigit)
    | ds => ([], ds)
  if whole.isEmpty && parts.1.isEmpty then
    let word := lowercase cs
    if word == "inf".toList || word == "infinity".toList then some (.infinite negative)
    else if word == "nan".toList then some .nan
    else none
  else
    (readExponent parts.2).map fun exponent =>
      ofDecimal negative (digitsValue (whole ++ parts.1)) (exponent - Int.ofNat parts.1.length)

def read? (text : String) : Option Double :=
  match text.toList with
  | '+' :: cs => readMagnitude false cs
  | '-' :: cs => readMagnitude true cs
  | cs => readMagnitude false cs

end Double

end KeyedTable
