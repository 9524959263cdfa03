import KeyedTable.Wire.Refusal
import KeyedTable.Wire.Reply
import KeyedTable.Wire.Request

namespace KeyedTable

namespace Wire

structure Response where
  status : Nat
  errorType : Option String
  body : String

inductive Answer
  | response (response : Response)
  | lost

def empty : Answer := .response ⟨200, none, ""⟩

def interpret (call : Call) : Answer → Except Failure call.Answer
  | .lost => .error ⟨none, "connection lost"⟩
  | .response response =>
    if 200 ≤ response.status && response.status < 300 then
      match readBody (answered call) response.body with
      | some answer => .ok answer
      | none => .error ⟨none, "unreadable response"⟩
    else .error (refusal call response.errorType response.body)

structure Connection where
  answers : List Answer
  sent : List Sent

def client : Client Connection := fun call c =>
  if isSendable call then
    (interpret call (c.answers.head?.getD empty), ⟨c.answers.tail, c.sent ++ [write call]⟩)
  else (.error ⟨none, "unsendable request"⟩, c)

end Wire

def Store.wire : Store Wire.Connection := .ofClient Wire.client fun c => c.answers.length

end KeyedTable
