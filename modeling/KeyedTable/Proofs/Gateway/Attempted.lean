import KeyedTable.Proofs.Gateway.Parts

namespace KeyedTable

variable {σ α β : Type}

def Event.IsQuiet : Event → Prop
  | .logged _ | .waited _ => True
  | .asked _ _ | .delivered _ => False

/-- The attempts at a request, with so many retries left, and what comes of the last one. -/
inductive Attempted (policy : RetryPolicy) (request : Request) :
    (left used : Nat) → List Happening → Except Error request.Reply → Prop
  | last {left used result} : Settled result ∨ left = 0 →
      Attempted policy request left used [.exchanged request result] result
  | again {left used detail own result} : Attempted policy request left (used + 1) own result →
      Attempted policy request (left + 1) used
        (.exchanged request (.error (.throttled detail)) ::
          .emitted (.logged (.retrying (.throttled detail) policy.delay (used + 1)
            policy.maxRetries)) ::
          .emitted (.waited policy.delay) :: own) result

theorem Task.Goes.attempted {policy : RetryPolicy} {pauses : Pauses} {request : Request}
    {left used : Nat} {own : List Happening} {outcome : Outcome request.Reply}
    (h : (policy.asking pauses request left used).Goes own outcome) :
    ∃ result, outcome = .ofExcept result ∧ Attempted policy request left used own result := by
  induction left generalizing used own with
  | zero =>
    obtain ⟨result, rest, rfl, hended⟩ := of_asking h
    cases hended
    exact ⟨result, rfl, .last (.inr rfl)⟩
  | succ left ih =>
    obtain ⟨result, rest, rfl, hrest⟩ := of_asking h
    cases result with
    | ok reply =>
      cases hrest
      exact ⟨_, rfl, .last (.inl (.ok reply))⟩
    | error error =>
      cases error with
      | throttled detail =>
        cases hrest with
        | emitted hrest =>
          cases hrest with
          | emitted hrest =>
            obtain ⟨result, rfl, hattempted⟩ := ih (of_pauseIf hrest)
            exact ⟨result, rfl, .again hattempted⟩
      | _ =>
        cases hrest
        exact ⟨_, rfl, .last (.inl (.error rfl))⟩

namespace Attempted

variable {policy : RetryPolicy} {request : Request} {left used : Nat} {own : List Happening}
  {result : Except Error request.Reply}

theorem exists_cons (h : Attempted policy request left used own result) :
    ∃ first rest, own = .exchanged request first :: rest := by
  cases h with
  | last => exact ⟨_, _, rfl⟩
  | again => exact ⟨_, _, rfl⟩

theorem last_mem (h : Attempted policy request left used own result) :
    .exchanged request result ∈ own := by
  induction h with
  | last => exact List.mem_cons_self
  | again _ ih => simp [ih]

theorem asked (h : Attempted policy request left used own result) {other : Request}
    {answer : Except Error other.Reply} (hmem : .exchanged other answer ∈ own) :
    other = request := by
  induction h with
  | last => cases List.mem_singleton.mp hmem; rfl
  | again _ ih =>
    simp only [List.mem_cons, Happening.exchanged.injEq, reduceCtorEq, false_or] at hmem
    exact hmem.elim And.left ih

theorem flatMap_eq {f : Happening → List β} (hemitted : ∀ event, f (.emitted event) = [])
    (hthrottled : ∀ detail, f (.exchanged request (.error (.throttled detail))) = [])
    (h : Attempted policy request left used own result) :
    own.flatMap f = f (.exchanged request result) := by
  induction h with
  | last => exact List.flatMap_singleton ..
  | again _ ih => simp only [List.flatMap_cons, hthrottled, hemitted, List.nil_append, ih]

theorem emitted (h : Attempted policy request left used own result) {event : Event}
    (hmem : .emitted event ∈ own) : event.IsQuiet := by
  induction h with
  | last => cases List.mem_singleton.mp hmem
  | again _ ih =>
    simp only [List.mem_cons, Happening.emitted.injEq, reduceCtorEq, false_or] at hmem
    obtain rfl | rfl | hmem := hmem
    · exact trivial
    · exact trivial
    · exact ih hmem

theorem deliveries_eq (h : Attempted policy request left used own result) :
    deliveries (own.map Happening.event) = [] := by
  induction h with
  | last => rfl
  | again _ ih => exact ih

theorem settled_or_throttled (h : Attempted policy request left used own result)
    {answer : Except Error request.Reply} (hmem : .exchanged request answer ∈ own) :
    answer = result ∨ ∃ detail, answer = .error (.throttled detail) := by
  induction h with
  | last =>
    cases List.mem_singleton.mp hmem
    exact .inl rfl
  | again _ ih =>
    simp only [List.mem_cons, Happening.exchanged.injEq, heq_eq_eq, true_and, reduceCtorEq,
      false_or] at hmem
    obtain rfl | hmem := hmem
    · exact .inr ⟨_, rfl⟩
    · exact ih hmem

end Attempted

def Happening.throttles : Happening → Bool
  | .exchanged _ (.error error) => error.isThrottling
  | .exchanged _ (.ok _) | .emitted _ => false

theorem Attempted.countP_throttles {policy : RetryPolicy} {request : Request} {left used : Nat}
    {own : List Happening} {error : Error}
    (h : Attempted policy request left used own (.error error)) (herror : error.isThrottling) :
    own.countP Happening.throttles = left + 1 := by
  generalize hresult : (.error error : Except Error request.Reply) = result at h
  induction h with
  | last hlast =>
    subst hresult
    obtain hsettled | rfl := hlast
    · rw [hsettled error rfl] at herror
      cases herror
    · exact List.countP_cons_of_pos herror
  | again _ ih =>
    rw [List.countP_cons_of_pos (by rfl), List.countP_cons_of_neg (by simp [Happening.throttles]),
      List.countP_cons_of_neg (by simp [Happening.throttles]), ih hresult]

theorem Attempted.countP_pos_of_waited {policy : RetryPolicy} {request : Request}
    {left used : Nat} {own : List Happening} {result : Except Error request.Reply}
    (h : Attempted policy request left used own result) {milliseconds : Nat}
    (hmem : .emitted (.waited milliseconds) ∈ own) : 0 < own.countP Happening.throttles := by
  cases h with
  | last => cases List.mem_singleton.mp hmem
  | again => exact List.countP_pos_iff.mpr ⟨_, List.mem_cons_self, rfl⟩

theorem Task.Goes.of_submit {g : Gateway σ} {pauses : Pauses} {request : Request}
    {next : request.Reply → Task α} {own : List Happening} {outcome : Outcome α}
    (h : (g.asking pauses request >>= next).Goes own outcome) :
    (∃ reply first rest, own = first ++ rest ∧
        Attempted g.retry request g.retry.maxRetries 0 first (.ok reply) ∧
        (next reply).Goes rest outcome) ∨
      ∃ error, outcome = .failed error ∧
        Attempted g.retry request g.retry.maxRetries 0 own (.error error) := by
  obtain ⟨reply, first, rest, rfl, hfirst, hrest⟩ | ⟨error, rfl, hfailed⟩ | ⟨-, hcut⟩ := h.of_bind
  · obtain ⟨result, hresult, hattempted⟩ := hfirst.attempted
    obtain rfl := Outcome.ofExcept_eq_done.mp hresult.symm
    exact .inl ⟨reply, first, rest, rfl, hattempted, hrest⟩
  · obtain ⟨result, hresult, hattempted⟩ := hfailed.attempted
    obtain rfl := Outcome.ofExcept_eq_failed.mp hresult.symm
    exact .inr ⟨error, rfl, hattempted⟩
  · obtain ⟨result, hresult, -⟩ := hcut.attempted
    exact absurd hresult.symm Outcome.ofExcept_ne_unfinished

end KeyedTable
