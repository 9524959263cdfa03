import KeyedTable.SortedMap
import KeyedTable.Text.Quoted

namespace KeyedTable

inductive AttributeValue
  | string (text : String)
  | number (text : String)
  | boolean (value : Bool)
  | null (value : Bool)
  | binary (bytes : List UInt8)
  | list (elements : List AttributeValue)
  | map (fields : List (String × AttributeValue))
  | stringSet (texts : List String)
  | numberSet (texts : List String)
  | binarySet (members : List (List UInt8))
  | unknown
  deriving Inhabited

namespace AttributeValue

mutual

def same : (a b : AttributeValue) → Bool
  | .string a, .string b => a == b
  | .number a, .number b => a == b
  | .boolean a, .boolean b => a == b
  | .null a, .null b => a == b
  | .binary a, .binary b => a == b
  | .list a, .list b => sameElements a b
  | .map a, .map b => sameFields a b
  | .stringSet a, .stringSet b => a == b
  | .numberSet a, .numberSet b => a == b
  | .binarySet a, .binarySet b => a == b
  | .unknown, .unknown => true
  | _, _ => false

def sameElements : (a b : List AttributeValue) → Bool
  | [], [] => true
  | a :: as, b :: bs => same a b && sameElements as bs
  | _, _ => false

def sameFields : (a b : List (String × AttributeValue)) → Bool
  | [], [] => true
  | (k, a) :: as, (l, b) :: bs => k == l && same a b && sameFields as bs
  | _, _ => false

end

mutual

theorem same_iff : ∀ a b, same a b = true ↔ a = b
  | .string _, b | .number _, b | .boolean _, b | .null _, b | .binary _, b | .stringSet _, b
  | .numberSet _, b | .binarySet _, b | .unknown, b => by cases b <;> simp [same]
  | .list a, b => by cases b <;> simp [same, sameElements_iff a]
  | .map a, b => by cases b <;> simp [same, sameFields_iff a]

theorem sameElements_iff : ∀ a b, sameElements a b = true ↔ a = b
  | [], b => by cases b <;> simp [sameElements]
  | a :: as, b => by cases b <;> simp [sameElements, same_iff a, sameElements_iff as]

theorem sameFields_iff : ∀ a b, sameFields a b = true ↔ a = b
  | [], b => by cases b <;> simp [sameFields]
  | (k, a) :: as, b => by
    rcases b with _ | ⟨⟨l, b⟩, bs⟩ <;> simp [sameFields, same_iff a, sameFields_iff as, and_assoc]

end

instance : DecidableEq AttributeValue := fun a b => decidable_of_iff _ (same_iff a b)

def tag : AttributeValue → String
  | .string _ => "S"
  | .number _ => "N"
  | .boolean _ => "BOOL"
  | .null _ => "NULL"
  | .binary _ => "B"
  | .list _ => "L"
  | .map _ => "M"
  | .stringSet _ => "SS"
  | .numberSet _ => "NS"
  | .binarySet _ => "BS"
  | .unknown => ""

def bracketed (parts : List String) : String := "[" ++ String.intercalate ", " parts ++ "]"

def braced (parts : List String) : String := "\x7b" ++ String.intercalate ", " parts ++ "\x7d"

def displayByte (b : UInt8) : List Char :=
  [Nat.digitChar (b.toNat / 16), Nat.digitChar (b.toNat % 16)]

def displayBytes (bytes : List UInt8) : String :=
  "Blob \x7b inner: " ++ String.ofList (bytes.flatMap displayByte) ++ " \x7d"

def displayTexts (texts : List String) : String := bracketed (texts.map Text.quote)

mutual

def display : AttributeValue → String
  | .string s => "S(" ++ Text.quote s ++ ")"
  | .number n => "N(" ++ Text.quote n ++ ")"
  | .boolean b => "Bool(" ++ toString b ++ ")"
  | .null b => "Null(" ++ toString b ++ ")"
  | .binary bytes => "B(" ++ displayBytes bytes ++ ")"
  | .list elements => "L(" ++ bracketed (displayElements elements) ++ ")"
  | .map fields => "M(" ++ braced (displayFields fields) ++ ")"
  | .stringSet texts => "Ss(" ++ displayTexts texts ++ ")"
  | .numberSet texts => "Ns(" ++ displayTexts texts ++ ")"
  | .binarySet members => "Bs(" ++ bracketed (members.map displayBytes) ++ ")"
  | .unknown => "Unknown"

def displayElements : List AttributeValue → List String
  | [] => []
  | value :: rest => value.display :: displayElements rest

def displayFields : List (String × AttributeValue) → List String
  | [] => []
  | (name, value) :: rest => (Text.quote name ++ ": " ++ value.display) :: displayFields rest

end

end AttributeValue

end KeyedTable
