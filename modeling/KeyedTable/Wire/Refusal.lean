import KeyedTable.Client
import KeyedTable.Wire.Attributes

/-! Refused calls. A refusal is told by its code, and what is documented to come with the code has
to be readable. -/

namespace KeyedTable.Wire

open Json (Spelled)

def bareCode (code : String) : String :=
  let cs := code.toList.takeWhile (· ≠ ':')
  String.ofList (match cs.dropWhile (· ≠ '#') with
    | [] => cs
    | _ :: rest => rest)

def textsUnder (name : String) (fields : List (List Char × Spelled)) : Option (List String) :=
  (fields.filterMap fun
    | (spelling, .text text) => if spelling = name.toList then some text else none
    | _ => none).mapM Spelled.string?

def codeOfFields (fields : List (List Char × Spelled)) : Option (Option String) := do
  let codes ← textsUnder "code" fields
  let types ← textsUnder "__type" fields
  let _ ← ["message", "Message", "errorMessage"].mapM fun name => textsUnder name fields
  if fields.all fun field => passable field.2 then some (codes.getLast?.or types.getLast?)
  else none

/-- The code in a body, of which anything but an object is looked at no further than its first
bracket or value. None if what is looked at is unreadable. -/
def bodyCode? (text : String) : Option (Option String) :=
  match Spelled.skipBlanks text.toList with
  | [] => some none
  | '\x7b' :: _ =>
    match spelled? text with
    | some (.object fields) => codeOfFields fields
    | _ => none
  | cs => if beginsValue cs then some none else none

def throttlingReasons : Part Unit :=
  (Part.list (Part.record [("reason", Part.text.checked), ("resource", Part.text.checked)]
    fun _ => ())).checked

def refusalMembers (call : Call) (code : String) : Option (List (String × Part Unit)) :=
  let message := ("message", Part.text.checked)
  match code, call with
  | "ConditionalCheckFailedException", .putItem _ => some [message, ("Item", attributes.checked)]
  | "ResourceNotFoundException", _ => some [message]
  | "ThrottlingException", _ => some [message, ("throttlingReasons", throttlingReasons)]
  | "ProvisionedThroughputExceededException", _ | "RequestLimitExceeded", _ =>
    some [message, ("ThrottlingReasons", throttlingReasons)]
  | _, _ => none

def unreadableRefusal : Failure := ⟨none, "unreadable refusal"⟩

/-- Why a call was refused. A code in the header takes the place of the body's. -/
def refusal (call : Call) (header : Option String) (body : String) : Failure :=
  match bodyCode? body with
  | none => unreadableRefusal
  | some inBody =>
    match (header.or inBody).map bareCode with
    | none => ⟨none, "refused without code"⟩
    | some code =>
      match refusalMembers call code with
      | none => ⟨some code, code⟩
      | some members =>
        match readBody (Part.record members fun _ => ()) body with
        | some _ => ⟨some code, code⟩
        | none => unreadableRefusal

end KeyedTable.Wire
