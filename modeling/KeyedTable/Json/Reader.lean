import KeyedTable.Json.Basic
import KeyedTable.Json.Spelled.Reader

/-! JSON text as it is typed: one value with blanks around it, nested at most 127 deep. A whole
number of 64 bits, signed or unsigned, stays whole; every other number becomes a double, and one
beyond all doubles is refused. -/

namespace KeyedTable.Json

def gather : Nat → List Char → Nat × List Char
  | n, [] => (n, [])
  | n, c :: cs =>
    if n * 10 + Decimal.digitValue c ≤ Decimal.maxCount then
      gather (n * 10 + Decimal.digitValue c) cs
    else (n, c :: cs)

def power (n : Nat) : Double := Double.ofNat (Decimal.tenTo n)

def scale? (n : Nat) (exponent : Int) : Option Double :=
  let x := Double.ofNat n
  if exponent > 308 then if n = 0 then some x else none
  else if 0 ≤ exponent then
    match x.mul (power exponent.toNat) with
    | .infinite _ => none
    | y => some y
  else if -308 ≤ exponent then some (x.div (power (-exponent).toNat))
  else if -616 ≤ exponent then some ((x.div (power 308)).div (power (-exponent - 308).toNat))
  else some (Double.zero false)

def maxExponent : Nat := 2147483647

structure Numeral where
  whole : List Char
  fraction : List Char
  exponent : Option (Bool × List Char)

def Numeral.double? (numeral : Numeral) : Option Double :=
  let (n, left) := gather 0 numeral.whole
  let (n, unread) := gather n numeral.fraction
  let start := Int.ofNat left.length - Int.ofNat (numeral.fraction.length - unread.length)
  match numeral.exponent with
  | none => scale? n start
  | some (down, ds) =>
    let e := Double.digitsValue ds
    if e ≤ maxExponent then scale? n (if down then start - Int.ofNat e else start + Int.ofNat e)
    else if n = 0 || down then some (Double.zero false)
    else none

def Numeral.value? (numeral : Numeral) (negative : Bool) : Option Json :=
  let (n, left) := gather 0 numeral.whole
  let isWhole := left.isEmpty && numeral.fraction.isEmpty && numeral.exponent.isNone
  if isWhole && !negative then some (.int (Int.ofNat n))
  else if isWhole && 0 < n && n ≤ Decimal.maxSigned + 1 then some (.int (-Int.ofNat n))
  else numeral.double?.map fun x => .float (if negative then x.negate else x)

def digitsThen (cs : List Char) : List Char × List Char :=
  (cs.takeWhile Char.isDigit, cs.dropWhile Char.isDigit)

def readExponent : List Char → Option (Option (Bool × List Char) × List Char)
  | c :: cs =>
    if c = 'e' || c = 'E' then
      let (down, cs) : Bool × List Char := match cs with
        | '+' :: cs => (false, cs)
        | '-' :: cs => (true, cs)
        | cs => (false, cs)
      let (ds, rest) := digitsThen cs
      if ds.isEmpty then none else some (some (down, ds), rest)
    else some (none, c :: cs)
  | [] => some (none, [])

def readFraction : List Char → Option (List Char × List Char)
  | '.' :: cs =>
    let (ds, rest) := digitsThen cs
    if ds.isEmpty then none else some (ds, rest)
  | cs => some ([], cs)

/-- Digits, then perhaps a fraction and an exponent. A zero is followed by no digit of the whole
part. -/
def readNumeral (cs : List Char) : Option Numeral := do
  let (whole, rest) := digitsThen cs
  if whole.isEmpty || (whole.length > 1 && whole.head? == some '0') then none
  else
    let (fraction, rest) ← readFraction rest
    let (exponent, rest) ← readExponent rest
    if rest.isEmpty then some ⟨whole, fraction, exponent⟩ else none

def number? : List Char → Option Json
  | '-' :: cs => (readNumeral cs).bind (·.value? true)
  | cs => (readNumeral cs).bind (·.value? false)

mutual

def ofSpelled? : Spelled → Option Json
  | .null => some .null
  | .bool b => some (.bool b)
  | .number spelling => number? spelling
  | .text spelling => (Spelled.string? spelling).map .string
  | .array elements => (elementsOfSpelled? elements).map .array
  | .object fields => (fieldsOfSpelled? fields).map ofFields

def elementsOfSpelled? : List Spelled → Option (List Json)
  | [] => some []
  | element :: rest => do
    let value ← ofSpelled? element
    let values ← elementsOfSpelled? rest
    some (value :: values)

def fieldsOfSpelled? : List (List Char × Spelled) → Option (List (String × Json))
  | [] => some []
  | (name, content) :: rest => do
    let name ← Spelled.string? name
    let value ← ofSpelled? content
    let fields ← fieldsOfSpelled? rest
    some ((name, value) :: fields)

end

def maxTypedDepth : Nat := 127

def read? (text : String) : Option Json := (Spelled.read? maxTypedDepth text).bind ofSpelled?

end KeyedTable.Json
