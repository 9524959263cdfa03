import KeyedTable.Base64
import KeyedTable.Item
import KeyedTable.Json.Basic
import KeyedTable.Wire.Part

namespace KeyedTable.Wire

open Json (Spelled)

mutual

def ofValue : AttributeValue → Json
  | .string text => .object [("S", .string text)]
  | .number text => .object [("N", .string text)]
  | .boolean b => .object [("BOOL", .bool b)]
  | .null b => .object [("NULL", .bool b)]
  | .binary bytes => .object [("B", ofBytes bytes)]
  | .list elements => .object [("L", .array (ofElements elements))]
  | .map fields => .object [("M", .object (ofFields fields))]
  | .stringSet texts => .object [("SS", .array (texts.map .string))]
  | .numberSet texts => .object [("NS", .array (texts.map .string))]
  | .binarySet members => .object [("BS", .array (members.map ofBytes))]
  | .unknown => .object []

def ofBytes (bytes : List UInt8) : Json := .string (String.ofList (Base64.encode bytes))

def ofElements : List AttributeValue → List Json
  | [] => []
  | value :: rest => ofValue value :: ofElements rest

def ofFields : List (String × AttributeValue) → List (String × Json)
  | [] => []
  | (name, value) :: rest => (name, ofValue value) :: ofFields rest

end

def ofItem (item : Item) : Json := .object (ofFields item.entries)

def valueTypes : List String := ["S", "N", "BOOL", "NULL", "B", "L", "M", "SS", "NS", "BS"]

def unknown? (type : String) (content : Spelled) : Option AttributeValue :=
  if valueTypes.contains type || !passable content then none else some .unknown

def bytes? : Spelled → Option (List UInt8)
  | .text spelling => Base64.decode? spelling
  | _ => none

def text? : Spelled → Option String
  | .text spelling => Spelled.string? spelling
  | _ => none

mutual

/-- A value is an object with one field that says what it is. Fields that are null or named
`__type` do not. -/
def value? : (room : Nat) → Spelled → Option (Option AttributeValue)
  | _, .null => some none
  | room + 1, .object fields =>
    match variants? room fields with
    | some [value] => some (some value)
    | _ => none
  | _, _ => none

def variants? (room : Nat) : List (List Char × Spelled) → Option (List AttributeValue)
  | [] => some []
  | (_, .null) :: rest => variants? room rest
  | (type, content) :: rest => do
    let type ← Spelled.string? type
    if type = "__type" then
      if passable content then variants? room rest else none
    else
      let value ← content? room type content
      let values ← variants? room rest
      some (value :: values)

def content? (room : Nat) (type : String) : Spelled → Option AttributeValue
  | .text spelling =>
    match type with
    | "S" => (Spelled.string? spelling).map .string
    | "N" => (Spelled.string? spelling).map .number
    | "B" => (Base64.decode? spelling).map .binary
    | _ => unknown? type (.text spelling)
  | .bool b =>
    match type with
    | "BOOL" => some (.boolean b)
    | "NULL" => some (.null b)
    | _ => unknown? type (.bool b)
  | .array elements =>
    match room, type with
    | room + 1, "L" => (elements? room elements).map .list
    | _ + 1, "SS" => (elements.mapM text?).map .stringSet
    | _ + 1, "NS" => (elements.mapM text?).map .numberSet
    | _ + 1, "BS" => (elements.mapM bytes?).map .binarySet
    | _, _ => unknown? type (.array elements)
  | .object fields =>
    match room, type with
    | room + 1, "M" => (fields? room fields).map fun fs => .map (Entries.ofList fs)
    | _, _ => unknown? type (.object fields)
  | content => unknown? type content

def elements? (room : Nat) : List Spelled → Option (List AttributeValue)
  | [] => some []
  | element :: rest => do
    let value ← (← value? room element)
    let values ← elements? room rest
    some (value :: values)

def fields? (room : Nat) : List (List Char × Spelled) → Option (List (String × AttributeValue))
  | [] => some []
  | (name, content) :: rest => do
    let name ← Spelled.string? name
    let value ← (← value? room content)
    let values ← fields? room rest
    some ((name, value) :: values)

end

def attributes : Part Item := Part.map value?

mutual

def isKnown : AttributeValue → Bool
  | .list elements => areKnown elements
  | .map fields => areFieldsKnown fields
  | .unknown => false
  | _ => true

def areKnown : List AttributeValue → Bool
  | [] => true
  | value :: rest => isKnown value && areKnown rest

def areFieldsKnown : List (String × AttributeValue) → Bool
  | [] => true
  | (_, value) :: rest => isKnown value && areFieldsKnown rest

end

def isKnownItem (item : Item) : Bool := areFieldsKnown item.entries

end KeyedTable.Wire
