import KeyedTable.Gateway.Session
import KeyedTable.Proofs.Memory.Progress
import KeyedTable.Proofs.Memory.Throttled

/-! Two runs side by side, from tables that are alike but for the requests that one of them is still
to throttle. As long as there are enough retries the runs stay alike, action by action. -/

namespace KeyedTable

/-- The events on the left are those on the right, but each request may have been throttled before
it was answered. -/
inductive Retried (retry : RetryPolicy) : List Event → List Event → Prop
  | nil : Retried retry [] []
  | asked {request refusal events rest} (count : Nat) : count ≤ retry.maxRetries →
      (∀ error ∈ refusal, error.isThrottling = false) → Retried retry events rest →
      Retried retry (retry.throttled request 0 count ++ .asked request refusal :: events)
        (.asked request refusal :: rest)
  | logged {notice events rest} : Retried retry events rest →
      Retried retry (.logged notice :: events) (.logged notice :: rest)
  | delivered {page events rest} : Retried retry events rest →
      Retried retry (.delivered page :: events) (.delivered page :: rest)

theorem Retried.append {retry : RetryPolicy} {before calm events rest : List Event}
    (h : Retried retry before calm) (hrest : Retried retry events rest) :
    Retried retry (before ++ events) (calm ++ rest) := by
  induction h with
  | nil => exact hrest
  | asked count hcount hrefusal _ ih =>
    rw [List.append_assoc]
    exact .asked count hcount hrefusal ih
  | logged _ ih => exact .logged ih
  | delivered _ ih => exact .delivered ih

def answered (events : List Event) : List (Request × Option Error) :=
  events.filterMap fun
    | .asked request refusal => if refusal.any Error.isThrottling then none else (request, refusal)
    | _ => none

def Event.isThrottled : Event → Bool
  | .asked _ refusal => refusal.any Error.isThrottling
  | _ => false

def waits (events : List Event) : List Nat :=
  events.filterMap fun
    | .waited milliseconds => some milliseconds
    | _ => none

theorem not_waited {events : List Event} (h : waits events = []) (milliseconds : Nat) :
    .waited milliseconds ∉ events := by
  intro hmem
  have hwaits : milliseconds ∈ waits events := List.mem_filterMap.mpr ⟨_, hmem, rfl⟩
  rw [h] at hwaits
  exact List.not_mem_nil hwaits

namespace Retried

variable {retry : RetryPolicy} {events rest : List Event}

theorem deliveries_throttled (request : Request) (used count : Nat) :
    deliveries (retry.throttled request used count) = [] := by
  induction count generalizing used with
  | zero => rfl
  | succ count ih => exact ih (used + 1)

theorem answered_append (before after : List Event) :
    answered (before ++ after) = answered before ++ answered after :=
  List.filterMap_append

theorem answered_throttled (request : Request) (used count : Nat) :
    answered (retry.throttled request used count) = [] := by
  induction count generalizing used with
  | zero => rfl
  | succ count ih => exact ih (used + 1)

theorem waits_append (before after : List Event) :
    waits (before ++ after) = waits before ++ waits after :=
  List.filterMap_append

theorem waits_throttled (request : Request) (used count : Nat) :
    waits (retry.throttled request used count) = List.replicate count retry.delay := by
  induction count generalizing used with
  | zero => rfl
  | succ count ih => exact congrArg (retry.delay :: ·) (ih (used + 1))

theorem countP_throttled (request : Request) (used count : Nat) :
    (retry.throttled request used count).countP Event.isThrottled = count := by
  induction count generalizing used with
  | zero => rfl
  | succ count ih =>
    rw [RetryPolicy.throttled, List.countP_cons_of_pos rfl,
      List.countP_cons_of_neg Bool.false_ne_true, List.countP_cons_of_neg Bool.false_ne_true,
      ih (used + 1)]

theorem deliveries_eq (h : Retried retry events rest) : deliveries events = deliveries rest := by
  induction h with
  | nil => rfl
  | asked count _ _ _ ih =>
    rw [deliveries_append, deliveries_throttled]
    exact ih
  | logged _ ih => exact ih
  | @delivered page _ _ _ ih => exact congrArg (page :: ·) ih

theorem answered_eq (h : Retried retry events rest) : answered events = answered rest := by
  induction h with
  | nil => rfl
  | asked count _ _ _ ih =>
    rw [answered_append, answered_throttled, answered, List.filterMap_cons, answered,
      List.filterMap_cons, ← answered, ← answered, ih]
    rfl
  | logged _ ih => exact ih
  | delivered _ ih => exact ih

theorem not_isThrottled {refusal : Option Error}
    (h : ∀ error ∈ refusal, error.isThrottling = false) (request : Request) :
    ¬ (Event.asked request refusal).isThrottled := by
  cases refusal with
  | none => exact Bool.false_ne_true
  | some error =>
    rw [Event.isThrottled, Option.any_some, h error rfl]
    exact Bool.false_ne_true

theorem waits_eq (h : Retried retry events rest) :
    waits events = List.replicate (events.countP Event.isThrottled) retry.delay := by
  induction h with
  | nil => rfl
  | @asked request refusal events _ count _ hrefusal _ ih =>
    have hwaits : waits (.asked request refusal :: events) = waits events := rfl
    rw [waits_append, waits_throttled, hwaits, ih, List.countP_append, countP_throttled,
      List.countP_cons_of_neg (not_isThrottled hrefusal request), List.replicate_append_replicate]
  | logged _ ih => exact ih
  | delivered _ ih => exact ih

theorem calm (h : Retried retry events rest) :
    rest.countP Event.isThrottled = 0 ∧ waits rest = [] := by
  induction h with
  | nil => exact ⟨rfl, rfl⟩
  | @asked request _ _ _ _ _ hrefusal _ ih =>
    exact ⟨(List.countP_cons_of_neg (not_isThrottled hrefusal request)).trans ih.1, ih.2⟩
  | logged _ ih => exact ih
  | delivered _ ih => exact ih

end Retried

/-- The same table and the same pages, but on the left some of the next requests are to be
throttled: no more than there are retries. -/
inductive Hindered (retry : RetryPolicy) :
    Memory × List Delivery → Memory × List Delivery → Prop
  | intro {n : Memory} {pages : List Delivery} {throttling : Nat} (throttled : Nat) :
      n.throttling = 0 → throttling ≤ retry.maxRetries →
      Hindered retry (n.hindered throttling throttled, pages) (n, pages)

namespace RetryPolicy

variable {σ τ : Type} (policy : RetryPolicy)

theorem attempts_beside (store : Store σ) (request : Request) (left used : Nat) (s : σ) (x : τ) :
    policy.attempts (Action.ask (store.beside τ) request) left used (s, x) =
      let ran := policy.attempts (Action.ask store request) left used s
      ⟨ran.outcome, (ran.store, x), ran.events⟩ := by
  induction left generalizing used s with
  | zero => simp only [attempts, Action.ask_apply, Store.beside]
  | succ left ih =>
    simp only [attempts, Action.ask_apply, Store.beside]
    cases hresult : (store.answer request s).1 with
    | ok reply => rfl
    | error error =>
      cases error with
      | throttled detail =>
        have hrest := ih (used + 1) (store.answer request s).2
        simp only [Store.beside] at hrest
        simp only [Outcome.ofExcept, hrest]
      | _ => rfl

theorem exists_run_hindered {n : Memory} (hcalm : n.throttling = 0) {throttling : Nat}
    (hthrottling : throttling ≤ policy.maxRetries) (throttled : Nat) (request : Request) :
    ∃ count throttling' throttled', count ≤ policy.maxRetries ∧ throttling' ≤ policy.maxRetries ∧
      policy.run (Action.ask Store.memory request) (n.hindered throttling throttled) =
        ⟨.ofExcept (n.answer request).1, (n.answer request).2.hindered throttling' throttled',
          policy.throttled request 0 count ++
            [.asked request (refusal? (n.answer request).1)]⟩ := by
  by_cases hserved : n.check request = .ok () ∧ n.failing = 0
  · obtain ⟨hcheck, hfailing⟩ := hserved
    have hran := policy.attempts_throttled (m := n.hindered throttling throttled) hcheck hfailing
      hthrottling 0
    have hreleased : (n.hindered throttling throttled).released =
        n.hindered 0 (throttled + throttling) := rfl
    have hanswer := Memory.answer_served hcheck hfailing hcalm
    rw [hreleased, Memory.count_hindered, Memory.serve_hindered, ← hanswer] at hran
    exact ⟨throttling, 0, throttled + throttling, hthrottling, Nat.zero_le _, hran⟩
  · have hrefused : n.check request ≠ .ok () ∨ n.failing ≠ 0 := by
      by_cases hcheck : n.check request = .ok ()
      · exact .inr fun hfailing => hserved ⟨hcheck, hfailing⟩
      · exact .inl hcheck
    have hanswer : Store.memory.answer request (n.hindered throttling throttled) =
        ((n.answer request).1, (n.answer request).2.hindered throttling throttled) :=
      Memory.answer_hindered hrefused throttling throttled
    have hsettled := Memory.settled_answer hcalm request
    have hran : policy.run (Action.ask Store.memory request) (n.hindered throttling throttled) =
        Action.ask Store.memory request (n.hindered throttling throttled) :=
      policy.attempts_of_settled (by rw [hanswer]; exact hsettled) _ _
    rw [Action.ask_apply, hanswer] at hran
    exact ⟨0, throttling, throttled, Nat.zero_le _, hthrottling, hran⟩

end RetryPolicy

structure Agrees {α : Type} (retry : RetryPolicy) (ran calm : Ran (Memory × List Delivery) α) :
    Prop where
  outcome : ∃ result : Except Error α,
    ran.outcome = .ofExcept result ∧ calm.outcome = .ofExcept result
  store : Hindered retry ran.store calm.store
  events : Retried retry ran.events calm.events

def Alike {α : Type} (retry : RetryPolicy)
    (action calm : Action (Memory × List Delivery) α) : Prop :=
  ∀ s t, Hindered retry s t → Agrees retry (action s) (calm t)

section

variable {α β ξ : Type} {retry : RetryPolicy} {s t : Memory × List Delivery}

theorem Agrees.bind {first first' : Action (Memory × List Delivery) α}
    {next next' : α → Action (Memory × List Delivery) β} (h : Agrees retry (first s) (first' t))
    (hnext : ∀ value, (first' t).outcome = .done value →
      Agrees retry (next value (first s).store) (next' value (first' t).store)) :
    Agrees retry ((first >>= next) s) ((first' >>= next') t) := by
  obtain ⟨result, houtcome, hcalm⟩ := h.outcome
  cases result with
  | error error =>
    rw [Action.bind_of_failed houtcome, Action.bind_of_failed hcalm]
    exact ⟨⟨.error error, rfl, rfl⟩, h.store, h.events⟩
  | ok value =>
    have hrest := hnext value hcalm
    rw [Action.bind_of_done houtcome, Action.bind_of_done hcalm]
    exact ⟨hrest.outcome, hrest.store, h.events.append hrest.events⟩

theorem Alike.bind {first first' : Action (Memory × List Delivery) α}
    {next next' : α → Action (Memory × List Delivery) β} (h : Alike retry first first')
    (hnext : ∀ value, Alike retry (next value) (next' value)) :
    Alike retry (first >>= next) (first' >>= next') :=
  fun s t hst => (h s t hst).bind fun value _ => hnext value _ _ (h s t hst).store

theorem Alike.pure (value : α) : Alike retry (Pure.pure value) (Pure.pure value) :=
  fun _ _ hst => ⟨⟨.ok value, rfl, rfl⟩, hst, .nil⟩

theorem Alike.log (notice : Notice) :
    Alike retry (Action.note (.logged notice)) (Action.note (.logged notice)) :=
  fun _ _ hst => ⟨⟨.ok (), rfl, rfl⟩, hst, .logged .nil⟩

theorem Alike.ofExcept (result : Except Error α) :
    Alike retry (Action.ofExcept result) (Action.ofExcept result) := by
  intro s t hst
  cases result with
  | error error => exact ⟨⟨.error error, rfl, rfl⟩, hst, .nil⟩
  | ok value => exact ⟨⟨.ok value, rfl, rfl⟩, hst, .nil⟩

theorem Alike.all {xs : List ξ} {action calm : ξ → Action (Memory × List Delivery) α}
    (h : ∀ x ∈ xs, Alike retry (action x) (calm x)) :
    Alike retry (Action.all (xs.map action)) (Action.all (xs.map calm)) := by
  induction xs with
  | nil => exact Alike.pure []
  | cons x xs ih =>
    obtain ⟨hfirst, hothers⟩ := List.forall_mem_cons.mp h
    intro s t hst
    have hran := hfirst s t hst
    have hrest := ih hothers _ _ hran.store
    obtain ⟨result, houtcome, hcalm⟩ := hran.outcome
    obtain ⟨results, houtcomes, hcalms⟩ := hrest.outcome
    refine ⟨?_, hrest.store, hran.events.append hrest.events⟩
    simp only [List.map_cons, Action.all, houtcome, hcalm, houtcomes, hcalms]
    cases result with
    | error error => exact ⟨.error error, rfl, rfl⟩
    | ok value =>
      cases results with
      | error error => exact ⟨.error error, rfl, rfl⟩
      | ok values => exact ⟨.ok (value :: values), rfl, rfl⟩

namespace Gateway

variable {table : Table} {receiver receiver' : Receiver}

theorem submit_received (table : Table) (retry : RetryPolicy) (receiver : Receiver)
    (request : Request) (m : Memory) (pages : List Delivery) :
    (received table retry receiver).submit request (m, pages) =
      let ran := retry.run (Action.ask Store.memory request) m
      ⟨ran.outcome, (ran.store, pages), ran.events⟩ :=
  retry.attempts_beside Store.memory request retry.maxRetries 0 m pages

theorem submit_of_calm {m : Memory} (hcalm : m.throttling = 0) (request : Request)
    (pages : List Delivery) :
    (received table retry receiver).submit request (m, pages) =
      ⟨.ofExcept (m.answer request).1, ((m.answer request).2, pages),
        [.asked request (refusal? (m.answer request).1)]⟩ := by
  have hsettled : Settled (Store.memory.answer request m).1 := Memory.settled_answer hcalm request
  rw [submit_received, RetryPolicy.run, retry.attempts_of_settled hsettled, Action.ask_apply]
  rfl

theorem alike_submit (request : Request) :
    Alike retry ((received table retry receiver).submit request)
      ((received table retry receiver').submit request) := by
  intro s t hst
  cases hst with
  | @intro n pages throttling throttled hcalm hthrottling =>
    obtain ⟨count, throttling', throttled', hcount, hthrottling', hran⟩ :=
      retry.exists_run_hindered hcalm hthrottling throttled request
    rw [submit_received, hran, submit_of_calm hcalm]
    exact ⟨⟨_, rfl, rfl⟩, .intro throttled' (Memory.throttling_answer hcalm request) hthrottling',
      .asked count hcount (Memory.settled_answer hcalm request).refusal .nil⟩

theorem reply_of_submit {request : Request} {reply : request.Reply} (hst : Hindered retry s t)
    (h : ((received table retry receiver).submit request t).outcome = .done reply) :
    (t.1.count request).serve request =
      (.ok reply, ((received table retry receiver).submit request t).store.1) := by
  cases hst with
  | @intro n pages throttling throttled hcalm hthrottling =>
    rw [submit_of_calm hcalm] at h ⊢
    cases hanswer : (n.answer request).1 with
    | error error =>
      rw [hanswer] at h
      cases h
    | ok served =>
      rw [hanswer] at h
      cases h
      have hserve := Memory.answer_of_ok hanswer
      exact hserve.symm.trans (Prod.ext hanswer rfl)

theorem agrees_submit_bind {request : Request}
    {next next' : request.Reply → Action (Memory × List Delivery) α} (hst : Hindered retry s t)
    (hnext : ∀ reply s' t', Hindered retry s' t' →
      (t.1.count request).serve request = (.ok reply, t'.1) →
      Agrees retry (next reply s') (next' reply t')) :
    Agrees retry (((received table retry receiver).submit request >>= next) s)
      (((received table retry receiver').submit request >>= next') t) :=
  have hsubmit := alike_submit request s t hst
  hsubmit.bind fun reply hreply => hnext reply _ _ hsubmit.store (reply_of_submit hst hreply)

end Gateway

end

end KeyedTable
