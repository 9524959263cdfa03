import KeyedTable.RetryPolicy

namespace KeyedTable

inductive Task (α : Type)
  | ended (outcome : Outcome α)
  | ask (request : Request) (answered : Except Error request.Reply → Task α)
  | emit (event : Event) (rest : Task α)
  | pause (rest : Task α)

/-- Where tasks pause. Nothing pauses where answers and waits take no time. -/
structure Pauses where
  /-- Before a request is sent, and before its answer is taken. -/
  answers : Bool
  /-- Before another attempt at a request that was throttled. -/
  waits : Bool
  deriving DecidableEq, Repr

namespace Task

variable {α β : Type}

def bind : Task α → (α → Task β) → Task β
  | .ended (.done value), next => next value
  | .ended (.failed error), _ => .ended (.failed error)
  | .ended .unfinished, _ => .ended .unfinished
  | .ask request answered, next => .ask request fun result => (answered result).bind next
  | .emit event rest, next => .emit event (rest.bind next)
  | .pause rest, next => .pause (rest.bind next)

instance : Monad Task where
  pure value := .ended (.done value)
  bind := bind

def pauseIf (pauses : Bool) (task : Task α) : Task α := if pauses then .pause task else task

def asking (pauses : Pauses) (request : Request)
    (answered : Except Error request.Reply → Task α) : Task α :=
  pauseIf pauses.answers (.ask request fun result => pauseIf pauses.answers (answered result))

end Task

def RetryPolicy.asking (policy : RetryPolicy) (pauses : Pauses) (request : Request) :
    (left used : Nat) → Task request.Reply
  | 0, _ => .asking pauses request fun result => .ended (.ofExcept result)
  | left + 1, used => .asking pauses request fun
    | .error (.throttled detail) =>
      .emit (.logged (.retrying (.throttled detail) policy.delay (used + 1) policy.maxRetries)) <|
        .emit (.waited policy.delay) <|
          .pauseIf pauses.waits (policy.asking pauses request left (used + 1))
    | result => .ended (.ofExcept result)

end KeyedTable
