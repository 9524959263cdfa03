import KeyedTable.Action

namespace KeyedTable

structure RetryPolicy where
  maxRetries : Nat
  delay : Nat
  deriving DecidableEq, Repr

namespace RetryPolicy

def standard : RetryPolicy := ⟨10, 500⟩

instance : Inhabited RetryPolicy := ⟨standard⟩

variable {σ α : Type}

def attempts (policy : RetryPolicy) (action : Action σ α) : (left used : Nat) → Action σ α
  | 0, _ => action
  | left + 1, used => fun s =>
    let ran := action s
    match ran.outcome with
    | .failed (.throttled detail) =>
      let rest := policy.attempts action left (used + 1) ran.store
      { rest with
        events := ran.events ++
          .logged (.retrying (.throttled detail) policy.delay (used + 1) policy.maxRetries) ::
          .waited policy.delay :: rest.events }
    | _ => ran

def run (policy : RetryPolicy) (action : Action σ α) : Action σ α :=
  policy.attempts action policy.maxRetries 0

end RetryPolicy

end KeyedTable
