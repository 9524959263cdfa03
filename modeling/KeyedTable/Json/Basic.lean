import KeyedTable.Decimal.Shortest
import KeyedTable.SortedMap

namespace KeyedTable

/-- Fields of an object are in name order and their names are distinct, which
`Json.ofFields` sees to. -/
inductive Json
  | null
  | bool (value : Bool)
  | int (value : Int)
  | float (value : Double)
  | string (value : String)
  | array (elements : List Json)
  | object (fields : List (String × Json))
  deriving Inhabited

namespace Json

def ofFields (fields : List (String × Json)) : Json := .object (Entries.ofList fields)

def field? : Json → String → Option Json
  | .object fields, name => Entries.lookup name fields
  | _, _ => none

def escapeControl (n : Nat) : List Char :=
  ['\\', 'u', '0', '0', Nat.digitChar (n / 16), Nat.digitChar (n % 16)]

def escape (c : Char) : List Char :=
  if c = '"' then ['\\', '"']
  else if c = '\\' then ['\\', '\\']
  else if c = '\n' then ['\\', 'n']
  else if c = '\t' then ['\\', 't']
  else if c = '\r' then ['\\', 'r']
  else if c.toNat = 8 then ['\\', 'b']
  else if c.toNat = 12 then ['\\', 'f']
  else if c.toNat < 0x20 then escapeControl c.toNat
  else [c]

def quote (s : String) : String := String.ofList ('"' :: s.toList.flatMap escape ++ ['"'])

mutual

def write : Json → String
  | .null => "null"
  | .bool b => if b then "true" else "false"
  | .int n => toString n
  | .float x => x.json
  | .string s => quote s
  | .array elements => "[" ++ String.intercalate "," (writeElements elements) ++ "]"
  | .object fields => "\x7b" ++ String.intercalate "," (writeFields fields) ++ "\x7d"

def writeElements : List Json → List String
  | [] => []
  | element :: rest => write element :: writeElements rest

def writeFields : List (String × Json) → List String
  | [] => []
  | (name, value) :: rest => (quote name ++ ":" ++ write value) :: writeFields rest

end

end Json

end KeyedTable
