import KeyedTable.Gateway.Resume
import KeyedTable.Proofs.Memory.Throttled

namespace KeyedTable

namespace Outcome

variable {α : Type} {result : Except Error α}

@[simp] theorem ofExcept_eq_done {value : α} :
    ofExcept result = .done value ↔ result = .ok value := by
  cases result <;> simp [ofExcept]

@[simp] theorem ofExcept_eq_failed {error : Error} :
    ofExcept result = .failed error ↔ result = .error error := by
  cases result <;> simp [ofExcept]

@[simp] theorem ofExcept_ne_unfinished : ofExcept result ≠ .unfinished := by
  cases result <;> simp [ofExcept]

end Outcome

variable {σ : Type}

inductive Tried (store : Store σ) (policy : RetryPolicy) (request : Request) :
    (used : Nat) → σ → Ran σ request.Reply → Prop
  | answered {used s t reply} : store.answer request s = (.ok reply, t) →
      Tried store policy request used s ⟨.done reply, t, [.asked request none]⟩
  | refused {used s t error} : store.answer request s = (.error error, t) →
      (error.isThrottling → used = policy.maxRetries) →
      Tried store policy request used s ⟨.failed error, t, [.asked request (some error)]⟩
  | again {used s t detail ran} : used < policy.maxRetries →
      store.answer request s = (.error (.throttled detail), t) →
      Tried store policy request (used + 1) t ran →
      Tried store policy request used s
        ⟨ran.outcome, ran.store,
          .asked request (some (.throttled detail)) ::
            .logged (.retrying (.throttled detail) policy.delay (used + 1) policy.maxRetries) ::
            .waited policy.delay :: ran.events⟩

theorem tried_attempts (store : Store σ) (policy : RetryPolicy) (request : Request)
    {left used : Nat} (h : used + left = policy.maxRetries) (s : σ) :
    Tried store policy request used s
      (policy.attempts (Action.ask store request) left used s) := by
  cases hanswer : store.answer request s with
  | mk result t =>
    have hask : Action.ask store request s =
        ⟨.ofExcept result, t, [.asked request (refusal? result)]⟩ := by
      rw [Action.ask_apply, hanswer]
    induction left generalizing used s t result with
    | zero =>
      rw [RetryPolicy.attempts, hask]
      cases result with
      | ok reply => exact .answered hanswer
      | error error => exact .refused hanswer fun _ => h
    | succ left ih =>
      simp only [RetryPolicy.attempts, hask]
      cases result with
      | ok reply => exact .answered hanswer
      | error error =>
        cases error with
        | throttled detail =>
          exact .again (by omega) hanswer
            (ih (by omega) t _ _ rfl (Action.ask_apply store request t))
        | _ => exact .refused hanswer fun hthrottling => by cases hthrottling

theorem tried_submit (g : Gateway σ) (request : Request) (s : σ) :
    Tried g.store g.retry request 0 s (g.submit request s) :=
  tried_attempts g.store g.retry request (Nat.zero_add _) s

namespace Tried

variable {store : Store σ} {policy : RetryPolicy} {request : Request} {used : Nat} {s : σ}
  {ran : Ran σ request.Reply}

theorem exists_last (h : Tried store policy request used s ran) {I : σ → Prop}
    (hI : ∀ u detail t, I u → store.answer request u = (.error (.throttled detail), t) → I t)
    (hs : I s) :
    ∃ u, I u ∧ ran.outcome = .ofExcept (store.answer request u).1 ∧
      ran.store = (store.answer request u).2 := by
  induction h with
  | @answered _ s _ _ hanswer => exact ⟨s, hs, by rw [hanswer]; rfl, by rw [hanswer]⟩
  | @refused _ s _ _ hanswer => exact ⟨s, hs, by rw [hanswer]; rfl, by rw [hanswer]⟩
  | again _ hanswer _ ih => exact ih (hI _ _ _ hs hanswer)

theorem ended (h : Tried store policy request used s ran) :
    ∃ result, ran.outcome = .ofExcept result := by
  obtain ⟨u, -, houtcome, -⟩ :=
    h.exists_last (I := fun _ => True) (fun _ _ _ _ _ => trivial) trivial
  exact ⟨_, houtcome⟩

theorem asked (h : Tried store policy request used s ran) {other : Request}
    {refusal : Option Error} (hmem : .asked other refusal ∈ ran.events) : other = request := by
  induction h with
  | answered => cases List.mem_singleton.mp hmem; rfl
  | refused => cases List.mem_singleton.mp hmem; rfl
  | again _ _ _ ih =>
    simp only [List.mem_cons, Event.asked.injEq, reduceCtorEq, false_or] at hmem
    exact hmem.elim And.left ih

theorem deliveries_eq (h : Tried store policy request used s ran) : deliveries ran.events = [] := by
  induction h with
  | answered => rfl
  | refused => rfl
  | again _ _ _ ih => exact ih

end Tried

end KeyedTable
