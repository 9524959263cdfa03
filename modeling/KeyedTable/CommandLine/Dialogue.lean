import KeyedTable.Action

namespace KeyedTable

inductive Output
  | text (s : String)
  | log (level : LogLevel) (s : String)
  | event (event : Event)
  deriving DecidableEq

inductive Dialogue (α : Type)
  | done (value : α)
  | tell (output : Output) (rest : Dialogue α)
  | ask (question : String) (answer : String → Dialogue α)

namespace Dialogue

variable {α β : Type}

def bind : Dialogue α → (α → Dialogue β) → Dialogue β
  | .done value, next => next value
  | .tell output rest, next => .tell output (rest.bind next)
  | .ask question answer, next => .ask question fun line => (answer line).bind next

instance : Monad Dialogue where
  pure := .done
  bind := bind

def say (output : Output) : Dialogue Unit := .tell output (.done ())

structure Held (α : Type) where
  value : α
  unread : List String
  outputs : List Output

/-- Holds the conversation with the lines as answers. When they are used up, every further answer
is an empty line. -/
def hold : Dialogue α → List String → Held α
  | .done value, lines => ⟨value, lines, []⟩
  | .tell output rest, lines =>
    let held := rest.hold lines
    { held with outputs := output :: held.outputs }
  | .ask question answer, lines =>
    let held := (answer (lines.headD "")).hold lines.tail
    { held with outputs := .text question :: held.outputs }

@[simp] theorem hold_done (value : α) (lines : List String) :
    (Dialogue.done value).hold lines = ⟨value, lines, []⟩ := rfl

theorem hold_bind (first : Dialogue α) (next : α → Dialogue β) (lines : List String) :
    (first.bind next).hold lines =
      { (next (first.hold lines).value).hold (first.hold lines).unread with
        outputs := (first.hold lines).outputs ++
          ((next (first.hold lines).value).hold (first.hold lines).unread).outputs } := by
  induction first generalizing lines with
  | done value => rfl
  | tell output rest ih => simp [bind, hold, ih]
  | ask question answer ih => simp [bind, hold, ih]

end Dialogue

end KeyedTable
