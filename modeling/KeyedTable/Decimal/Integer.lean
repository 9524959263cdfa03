namespace KeyedTable.Decimal

abbrev twoTo (n : Nat) : Nat := Nat.pow 2 n

abbrev tenTo (n : Nat) : Nat := Nat.pow 10 n

inductive IntegerFault
  | empty
  | invalidDigit
  | tooLarge
  | tooSmall
  deriving DecidableEq, Repr

def IntegerFault.message : IntegerFault → String
  | .empty => "cannot parse integer from empty string"
  | .invalidDigit => "invalid digit found in string"
  | .tooLarge => "number too large to fit in target type"
  | .tooSmall => "number too small to fit in target type"

def maxCount : Nat := 18446744073709551615

def maxSigned : Nat := 9223372036854775807

def digitValue (c : Char) : Nat := c.toNat - '0'.toNat

def readDigits (bound : Nat) (beyond : IntegerFault) : Nat → List Char → Except IntegerFault Nat
  | value, [] => .ok value
  | value, c :: cs =>
    if c.isDigit then
      if value * 10 + digitValue c ≤ bound then
        readDigits bound beyond (value * 10 + digitValue c) cs
      else .error beyond
    else .error .invalidDigit

def readUnsigned (bound : Nat) (text : String) : Except IntegerFault Nat :=
  match text.toList with
  | [] => .error .empty
  | ['+'] => .error .invalidDigit
  | '+' :: cs => readDigits bound .tooLarge 0 cs
  | cs => readDigits bound .tooLarge 0 cs

def readSigned (text : String) : Except IntegerFault Int :=
  match text.toList with
  | [] => .error .empty
  | ['+'] | ['-'] => .error .invalidDigit
  | '+' :: cs => (readDigits maxSigned .tooLarge 0 cs).map Int.ofNat
  | '-' :: cs => (readDigits (maxSigned + 1) .tooSmall 0 cs).map fun n => -Int.ofNat n
  | cs => (readDigits maxSigned .tooLarge 0 cs).map Int.ofNat

def readCount (text : String) : Except IntegerFault Nat := readUnsigned maxCount text

end KeyedTable.Decimal
