import KeyedTable.Error
import KeyedTable.Item
import KeyedTable.Json.Basic

namespace KeyedTable

namespace AttributeValue

mutual

def ofJson : Json → AttributeValue
  | .null => .null true
  | .bool b => .boolean b
  | .int n => .number (toString n)
  | .float x => if x.isFinite then .number x.plain else .null true
  | .string s => .string s
  | .array elements => .list (ofElements elements)
  | .object fields => .map (ofFields fields)

def ofElements : List Json → List AttributeValue
  | [] => []
  | element :: rest => ofJson element :: ofElements rest

def ofFields : List (String × Json) → List (String × AttributeValue)
  | [] => []
  | (name, value) :: rest => (name, ofJson value) :: ofFields rest

end

/-- A number of 64 bits, signed or unsigned, is whole; any other is a double, or null if that is
not finite. -/
def numberToJson (text : String) : Except Error Json :=
  match Decimal.readSigned text, Decimal.readCount text, Double.read? text with
  | .ok n, _, _ => .ok (.int n)
  | _, .ok n, _ => .ok (.int (Int.ofNat n))
  | _, _, some (.finite s m e) => .ok (.float (.finite s m e))
  | _, _, some _ => .ok .null
  | _, _, none => .error (.invalidArgument (.notANumber text))

mutual

def toJson : AttributeValue → Except Error Json
  | .string s => .ok (.string s)
  | .number text => numberToJson text
  | .boolean b => .ok (.bool b)
  | .null true => .ok .null
  | .null false => .error (.invalidArgument .falseNull)
  | .binary _ => .error (.invalidArgument .binary)
  | .list elements => (toElements elements).map .array
  | .map fields => (toFields fields).map .object
  | .stringSet texts => .ok (.array (texts.map .string))
  | .numberSet texts => (texts.mapM numberToJson).map .array
  | .binarySet [] => .ok (.array [])
  | .binarySet (_ :: _) => .error (.invalidArgument .binary)
  | .unknown => .error (.invalidArgument .unknownType)

def toElements : List AttributeValue → Except Error (List Json)
  | [] => .ok []
  | value :: rest => do
    let value ← toJson value
    let rest ← toElements rest
    .ok (value :: rest)

def toFields : List (String × AttributeValue) → Except Error (List (String × Json))
  | [] => .ok []
  | (name, value) :: rest => do
    let value ← toJson value
    let rest ← toFields rest
    .ok ((name, value) :: rest)

end

end AttributeValue

namespace Item

def ofJson : Json → Except Error Item
  | .object fields => .ok (SortedMap.ofList (AttributeValue.ofFields fields))
  | _ => .error (.invalidArgument .notAnObject)

def toJson (item : Item) : Except Error Json :=
  (AttributeValue.toFields item.entries).map .object

end Item

end KeyedTable
