import KeyedTable.CommandLine.Dialogue
import KeyedTable.Item.Json
import KeyedTable.Json.Reader

namespace KeyedTable

inductive Complaint
  | failed (error : Error)
  | expression (fault : ExpressionFault)
  | notJson (wanted : String)
  | notCount (what : String) (fault : Decimal.IntegerFault)
  | emptyExpression
  | unfinished
  deriving DecidableEq

def Complaint.message : Complaint → String
  | .failed (.expression fault) => (Error.expression fault).message ++ ": " ++ fault.message
  | .failed error => error.message
  | .expression fault => fault.message
  | .notJson wanted => "expected a JSON " ++ wanted
  | .notCount what fault => what ++ " must be a positive integer: " ++ fault.message
  | .emptyExpression => "Empty expression"
  | .unfinished => "unfinished"

def Command (σ α : Type) := σ → Dialogue (Except Complaint α × σ)

namespace Command

variable {σ α β : Type}

def done (value : α) : Command σ α := fun s => .done (.ok value, s)

def fail (complaint : Complaint) : Command σ α := fun s => .done (.error complaint, s)

def bind (first : Command σ α) (next : α → Command σ β) : Command σ β := fun s =>
  (first s).bind fun
    | (.ok value, t) => next value t
    | (.error complaint, t) => .done (.error complaint, t)

instance : Monad (Command σ) where
  pure := done
  bind := bind

def say (output : Output) : Command σ Unit := fun s => .tell output (.done (.ok (), s))

def printLine (line : String) : Command σ Unit := say (.text (line ++ "\n"))

def printLines : List String → Command σ Unit
  | [] => done ()
  | line :: lines => do printLine line; printLines lines

def ofExcept {ε : Type} (complain : ε → Complaint) : Except ε α → Command σ α
  | .ok value => done value
  | .error error => fail (complain error)

def question (message : String) (sample : Option String) : String :=
  match sample with
  | some text => message ++ " (e.g., " ++ text ++ "): "
  | none => message ++ ": "

def prompt (message : String) (sample : Option String) : Command σ String := fun s =>
  .ask (question message sample) fun line => .done (.ok (Text.trim line), s)

def promptOptional (message sample : String) : Command σ (Option String) := do
  let answer ← prompt message (some sample)
  return if answer.isEmpty then none else some answer

def promptYes (message : String) (standard : Bool) : Command σ Bool := do
  let answer ← prompt (message ++ " (y/n)") (some (if standard then "y" else "n"))
  return answer.toList.head?.any (fun c => c = 'y' || c = 'Y') || (answer.isEmpty && standard)

def count (what text : String) : Command σ Nat :=
  ofExcept (.notCount what) (Decimal.readCount text)

def promptKey (names : List String) : Command σ Item :=
  names.foldlM (fun item name => do
    let value ← prompt ("Enter " ++ name) none
    return item.insert name (.string value)) .empty

def readItem (text : String) : Except Complaint Item :=
  match Json.read? text with
  | some (.object fields) => (Item.ofJson (.object fields)).mapError .failed
  | _ => .error (.notJson "object")

def readItems (text : String) : Except Complaint (List Item) :=
  match Json.read? text with
  | some (.array elements) => (elements.mapM Item.ofJson).mapError .failed
  | _ => .error (.notJson "array of objects")

end Command

end KeyedTable
