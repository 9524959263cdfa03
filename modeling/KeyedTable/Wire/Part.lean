import KeyedTable.Client
import KeyedTable.Decimal.Double
import KeyedTable.Json.Spelled.Reader
import KeyedTable.SortedMap

namespace KeyedTable.Wire

open Json (Spelled)

def maxLevels : Nat := 128

def maxPassedLevels : Nat := 512

def passable (content : Spelled) : Bool := content.depth ≤ maxPassedLevels

def number? (spelling : List Char) : Option Double := Double.read? (String.ofList spelling)

def isCount : Double → Bool
  | .finite negative significand exponent =>
    let (num, den) := Double.ratio significand exponent
    num % den == 0 && num / den ≤ maxCount + negative.toNat
  | _ => false

/-- How a part is read that may have `room` levels. -/
abbrev Part (α : Type) := (room : Nat) → Spelled → Option (Option α)

structure Record where
  room : Nat
  fields : List (String × Spelled)

namespace Record

def get? {α : Type} (record : Record) (name : String) (part : Part α) : Option α :=
  match (record.fields.filter (·.1 == name)).getLast? with
  | some (_, content) => (part record.room content).join
  | none => none

/-- Whether every field that is a member is readable as such, and every other passable. -/
def conforms (members : List (String × Part Unit)) (record : Record) : Bool :=
  record.fields.all fun (name, content) =>
    match members.lookup name with
    | some part => (part record.room content).isSome
    | none => passable content

end Record

def namedFields? (fields : List (List Char × Spelled)) : Option (List (String × Spelled)) :=
  fields.mapM fun (name, content) => (Spelled.string? name).map fun name => (name, content)

namespace Part

variable {α : Type}

def checked (part : Part α) : Part Unit := fun room content =>
  (part room content).map fun value => value.map fun _ => ()

def text : Part String
  | _, .null => some none
  | _, .text spelling => (Spelled.string? spelling).map some
  | _, _ => none

def flag : Part Bool
  | _, .null => some none
  | _, .bool b => some (some b)
  | _, _ => none

def number : Part Double
  | _, .null => some none
  | _, .number spelling => ((number? spelling).filter Double.isFinite).map some
  | _, .text spelling => do
    let text ← Spelled.string? spelling
    ((Double.read? text).filter fun x => !x.isFinite).map some
  | _, _ => none

def count : Part Double := fun room content => do
  let value ← number room content
  if value.all isCount then some value else none

def list (part : Part α) : Part (List α)
  | _, .null => some none
  | room + 1, .array elements =>
    (elements.mapM fun element => (part room element).join).map some
  | _, _ => none

def map (part : Part α) : Part (SortedMap String α)
  | _, .null => some none
  | room + 1, .object fields => do
    let fields ← namedFields? fields
    let entries ← fields.mapM fun (name, content) =>
      (part room content).join.map fun value => (name, value)
    some (some (SortedMap.ofList entries))
  | _, _ => none

def record (members : List (String × Part Unit)) (build : Record → α) : Part α
  | _, .null => some none
  | room + 1, .object fields => do
    let fields ← namedFields? fields
    let record : Record := ⟨room, fields⟩
    if record.conforms members then some (some (build record)) else none
  | _, _ => none

end Part

def spelled? (text : String) : Option Spelled :=
  (Spelled.read? (maxLevels + maxPassedLevels) text).filter
    (·.allNumbers fun spelling => (number? spelling).isSome)

def readBody {α : Type} (part : Part α) (text : String) : Option α :=
  if text.isEmpty then (part maxLevels (.object [])).join
  else (spelled? text).bind fun content => (part maxLevels content).join

def endsWord : List Char → Bool
  | [] => true
  | c :: _ => " \n\t\r,]\x7d".toList.contains c

def beginsValue (text : List Char) : Bool :=
  match text with
  | '[' :: _ | '\x7b' :: _ => true
  | _ =>
    match Spelled.readScalar text with
    | some (.text _, _) => true
    | some (.number spelling, rest) => (number? spelling).isSome && endsWord rest
    | some (_, rest) => endsWord rest
    | none => false

end KeyedTable.Wire
