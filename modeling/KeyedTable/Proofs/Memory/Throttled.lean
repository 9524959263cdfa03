import KeyedTable.Proofs.Reading.Portion

namespace KeyedTable

def Settled {α : Type} (result : Except Error α) : Prop :=
  ∀ error, result = .error error → error.isThrottling = false

namespace Settled

variable {α β : Type}

theorem ok (value : α) : Settled (.ok value : Except Error α) := by
  intro error h
  cases h

theorem error {error : Error} (h : error.isThrottling = false) :
    Settled (.error error : Except Error α) := by
  intro error' h'
  cases h'
  exact h

theorem bind {result : Except Error α} {next : α → Except Error β} (h : Settled result)
    (hnext : ∀ value, Settled (next value)) : Settled (result >>= next) := by
  cases result with
  | ok value => exact hnext value
  | error failure => exact Settled.error (h failure rfl)

theorem map {result : Except Error α} (f : α → β) (h : Settled result) :
    Settled (result.map f) := by
  cases result with
  | ok value => exact Settled.ok (f value)
  | error failure => exact Settled.error (h failure rfl)

end Settled

namespace Placeholders

theorem settled_resolve (placeholders : Placeholders) (expression : String) :
    Settled (placeholders.resolve expression) := by
  unfold resolve
  split
  · exact .error rfl
  next text _ =>
    cases Condition.parse (String.ofList text) with
    | ok condition => exact .ok condition
    | error fault => exact .error rfl

theorem settled_resolveFilter (placeholders : Placeholders) (filter : Option String) :
    Settled (placeholders.resolveFilter filter) := by
  cases filter with
  | none => exact .ok none
  | some expression => exact (placeholders.settled_resolve expression).map some

end Placeholders

namespace Memory

theorem settled_check (m : Memory) (request : Request) : Settled (m.check request) := by
  unfold check
  split
  · exact .error rfl
  · cases request with
    | get | put => exact .ok ()
    | writeBatch table entries =>
      rw [checkShape]
      split
      · exact .error rfl
      · exact .ok ()
    | getBatch table keys =>
      rw [checkShape]
      split
      · exact .error rfl
      · exact .ok ()
    | read read =>
      rw [checkShape]
      cases read.scope with
      | query => exact .ok ()
      | segment number total =>
        rw [checkScope]
        split
        · exact .error rfl
        · exact .ok ()

theorem settled_applyEntries (m : Memory) (entries : List WriteEntry) :
    Settled (m.applyEntries entries).1 := by
  induction entries generalizing m with
  | nil => exact .ok ()
  | cons entry entries ih =>
    cases entry with
    | put item => exact ih (m.store item)
    | delete key =>
      rw [applyEntries]
      split
      · exact .error rfl
      · exact ih _

theorem settled_visible (m : Memory) (index : Option String) : Settled (m.visible index) := by
  cases index with
  | none => exact .ok _
  | some name =>
    simp only [visible]
    split
    · exact .error rfl
    · exact .ok _

theorem settled_candidates (m : Memory) (read : Read) : Settled (m.candidates read) := by
  unfold candidates
  cases read.scope with
  | query keyCondition forward =>
    exact (read.placeholders.settled_resolve keyCondition).bind fun _ =>
      (m.settled_visible read.index).bind fun _ => .ok _
  | segment number total => exact (m.settled_visible read.index).bind fun _ => .ok _

theorem settled_serve (m : Memory) (request : Request) : Settled (m.serve request).1 := by
  cases request with
  | get table key => exact .ok _
  | put put =>
    simp only [serve, Memory.put]
    split
    next error heq =>
      exact .error (put.placeholders.settled_resolveFilter put.condition error heq)
    next => exact .ok ()
    next =>
      split
      · exact .ok ()
      · exact .error rfl
  | writeBatch table entries => exact (settled_applyEntries _ _).map _
  | getBatch table keys => exact .ok _
  | read read =>
    exact (read.placeholders.settled_resolveFilter read.filter).bind fun _ =>
      (m.settled_candidates read).bind fun _ => .ok _

variable {m : Memory} {request : Request}

def throttledDetail : String := "ProvisionedThroughputExceededException"

def hindered (m : Memory) (throttling throttled : Nat) : Memory :=
  { m with throttling, tally := { m.tally with throttled } }

def released (m : Memory) : Memory := m.hindered 0 (m.tally.throttled + m.throttling)

/-- Requests are throttled at most, and no more of them than there are retries. -/
structure Bearable (retry : RetryPolicy) (m : Memory) : Prop where
  failing : m.failing = 0
  throttling : m.throttling ≤ retry.maxRetries

theorem released_of_none (h : m.throttling = 0) : m.released = m := by
  rw [released, h]
  exact congrArg (fun count => m.hindered count m.tally.throttled) h.symm

theorem released_hindered {count : Nat} (h : m.throttling = count + 1) :
    (m.hindered count (m.tally.throttled + 1)).released = m.released := by
  have hsum : m.tally.throttled + 1 + count = m.tally.throttled + m.throttling := by omega
  exact congrArg (m.hindered 0) hsum

theorem answer_throttled {count : Nat} (hcheck : m.check request = .ok ())
    (hfailing : m.failing = 0) (hcount : m.throttling = count + 1) :
    m.answer request =
      (.error (.throttled throttledDetail), m.hindered count (m.tally.throttled + 1)) := by
  have hfirst : ¬ 0 < m.failing := by omega
  have hnext : 0 < m.throttling := by omega
  have hleft : m.throttling - 1 = count := by omega
  have hinterrupt : m.interrupt =
      some (.throttled throttledDetail, m.hindered count (m.tally.throttled + 1)) := by
    simp only [interrupt, if_neg hfirst, if_pos hnext, hleft]
    rfl
  simp only [answer, hcheck, hinterrupt]

theorem answer_served (hcheck : m.check request = .ok ()) (hfailing : m.failing = 0)
    (hthrottling : m.throttling = 0) :
    m.answer request = (m.count request).serve request := by
  have hinterrupt : m.interrupt = none := by simp [interrupt, hfailing, hthrottling]
  simp only [answer, hcheck, hinterrupt]

section Hindered

variable (m) (throttling throttled : Nat)

/-! Serving a request neither depends on the throttling nor changes it. -/

theorem count_hindered (request : Request) :
    (m.hindered throttling throttled).count request =
      (m.count request).hindered throttling throttled := by
  have hadd : Tally.add { m.tally with throttled } request =
      { m.tally.add request with throttled } := by
    cases request with
    | read read => cases hscope : read.scope <;> simp [Tally.add, hscope]
    | _ => rfl
  simp only [count, hindered, hadd]

theorem applyEntries_hindered (entries : List WriteEntry) :
    (m.hindered throttling throttled).applyEntries entries =
      ((m.applyEntries entries).1, (m.applyEntries entries).2.hindered throttling throttled) := by
  induction entries generalizing m with
  | nil => rfl
  | cons entry entries ih =>
    cases entry with
    | put item => exact ih (m.store item)
    | delete key =>
      by_cases hkey : key.size ≠ m.table.primaryKey.names.length
      · have hkey' : key.size ≠ (m.hindered throttling throttled).table.primaryKey.names.length :=
          hkey
        rw [applyEntries, applyEntries, if_pos hkey, if_pos hkey']
      · have hkey' : ¬ key.size ≠ (m.hindered throttling throttled).table.primaryKey.names.length :=
          hkey
        rw [applyEntries, applyEntries, if_neg hkey, if_neg hkey']
        exact ih { m with items := m.items.erase (m.table.primaryOrder key) }

theorem serve_hindered (request : Request) :
    (m.hindered throttling throttled).serve request =
      ((m.serve request).1, (m.serve request).2.hindered throttling throttled) := by
  cases request with
  | get | getBatch | read => rfl
  | put put =>
    have hlookup : (m.hindered throttling throttled).lookup put.item = m.lookup put.item := rfl
    simp only [serve, Memory.put, hlookup]
    cases put.placeholders.resolveFilter put.condition with
    | error error => rfl
    | ok test =>
      cases test with
      | none => rfl
      | some condition =>
        by_cases hholds : condition.holds ((m.lookup put.item).getD .empty)
        · simp only [if_pos hholds]
          rfl
        · simp only [if_neg hholds]
  | writeBatch table entries =>
    have happlied := applyEntries_hindered { m with halving := m.halving - 1 } throttling throttled
      (entries.take (m.processed entries.length))
    exact congrArg (fun applied : Except Error Unit × Memory =>
      (applied.1.map fun _ => entries.drop (m.processed entries.length), applied.2)) happlied

theorem throttling_serve (request : Request) : (m.serve request).2.throttling = m.throttling := by
  have hsame := m.serve_hindered m.throttling m.tally.throttled request
  exact congrArg (fun served => served.2.throttling) hsame

variable {m}

theorem answer_throttling (request : Request) :
    (∃ detail, (m.answer request).1 = .error (.throttled detail) ∧
      m.throttling = (m.answer request).2.throttling + 1) ∨
      Settled (m.answer request).1 ∧ (m.answer request).2.throttling = m.throttling := by
  unfold answer
  split
  next heq => exact .inr ⟨.error (m.settled_check request _ heq), rfl⟩
  · split
    next error after heq =>
      unfold interrupt at heq
      split at heq
      · cases heq
        exact .inr ⟨.error rfl, rfl⟩
      · split at heq
        next hpos =>
          cases heq
          exact .inl ⟨_, rfl, (Nat.sub_add_cancel hpos).symm⟩
        · cases heq
    · exact .inr ⟨settled_serve _ request, throttling_serve _ request⟩

theorem throttling_answer (hcalm : m.throttling = 0) (request : Request) :
    (m.answer request).2.throttling = 0 := by
  obtain ⟨_, -, hcount⟩ | ⟨-, hsame⟩ := answer_throttling (m := m) request
  · omega
  · exact hsame.trans hcalm

theorem settled_answer (hcalm : m.throttling = 0) (request : Request) :
    Settled (m.answer request).1 := by
  obtain ⟨_, -, hcount⟩ | ⟨hsettled, -⟩ := answer_throttling (m := m) request
  · omega
  · exact hsettled

theorem answer_hindered {request : Request}
    (h : m.check request ≠ .ok () ∨ m.failing ≠ 0) (throttling throttled : Nat) :
    (m.hindered throttling throttled).answer request =
      ((m.answer request).1, (m.answer request).2.hindered throttling throttled) := by
  have hcheck : (m.hindered throttling throttled).check request = m.check request := rfl
  simp only [answer, hcheck]
  cases hrefused : m.check request with
  | error error => rfl
  | ok _ =>
    have hfailing : 0 < m.failing := Nat.pos_of_ne_zero (h.resolve_left fun hne => hne hrefused)
    have hfailing' : 0 < (m.hindered throttling throttled).failing := hfailing
    simp only [interrupt, if_pos hfailing, if_pos hfailing']
    rfl

end Hindered

end Memory

theorem Settled.refusal {α : Type} {result : Except Error α} (h : Settled result) :
    ∀ error ∈ refusal? result, error.isThrottling = false := by
  cases result with
  | ok value => intro error herror; cases herror
  | error failure => intro error herror; cases herror; exact h failure rfl

theorem Action.ask_apply {σ : Type} (store : Store σ) (request : Request) (s : σ) :
    Action.ask store request s =
      ⟨.ofExcept (store.answer request s).1, (store.answer request s).2,
        [.asked request (refusal? (store.answer request s).1)]⟩ := by
  unfold ask
  split
  next heq => rw [heq]; rfl
  next heq => rw [heq]; rfl

theorem Action.bind_of_eq {σ α β : Type} {first : Action σ α} {next : α → Action σ β} {s t u : σ}
    {value : α} {outcome : Outcome β} {events rest : List Event}
    (h : first s = ⟨.done value, t, events⟩) (hnext : next value t = ⟨outcome, u, rest⟩) :
    (first >>= next) s = ⟨outcome, u, events ++ rest⟩ := by
  rw [Action.bind_of_done (by rw [h]), h, hnext]

theorem Action.all_cons_of_eq {σ α : Type} {action : Action σ α} {actions : List (Action σ α)}
    {s t u : σ} {value : α} {values : List α} {events rest : List Event}
    (h : action s = ⟨.done value, t, events⟩)
    (hrest : Action.all actions t = ⟨.done values, u, rest⟩) :
    Action.all (action :: actions) s = ⟨.done (value :: values), u, events ++ rest⟩ := by
  simp only [Action.all, h, hrest]

namespace RetryPolicy

def throttled (policy : RetryPolicy) (request : Request) (used : Nat) : Nat → List Event
  | 0 => []
  | count + 1 =>
    .asked request (some (.throttled Memory.throttledDetail)) ::
      .logged (.retrying (.throttled Memory.throttledDetail) policy.delay (used + 1)
        policy.maxRetries) ::
      .waited policy.delay :: policy.throttled request (used + 1) count

variable {σ : Type} (policy : RetryPolicy)

theorem attempts_of_settled {store : Store σ} {request : Request} {s : σ}
    (h : Settled (store.answer request s).1) (left used : Nat) :
    policy.attempts (Action.ask store request) left used s = Action.ask store request s := by
  cases left with
  | zero => rfl
  | succ left =>
    have hsettled : ∀ detail,
        (Action.ask store request s).outcome ≠ .failed (.throttled detail) := by
      intro detail houtcome
      rw [Action.ask_apply] at houtcome
      cases hresult : (store.answer request s).1 with
      | ok reply => rw [hresult] at houtcome; cases houtcome
      | error error =>
        rw [hresult] at houtcome
        cases houtcome
        cases h _ hresult
    -- `hsettled` is what the branch without another attempt asks for.
    simp only [attempts]

theorem attempts_throttled {m : Memory} {request : Request} (hcheck : m.check request = .ok ())
    (hfailing : m.failing = 0) {left : Nat} (hleft : m.throttling ≤ left) (used : Nat) :
    policy.attempts (Action.ask Store.memory request) left used m =
      let served := (m.released.count request).serve request
      ⟨.ofExcept served.1, served.2,
        policy.throttled request used m.throttling ++ [.asked request (refusal? served.1)]⟩ := by
  induction hcount : m.throttling generalizing m left used with
  | zero =>
    have hreleased := Memory.released_of_none hcount
    have hanswer : Store.memory.answer request m = (m.count request).serve request :=
      Memory.answer_served hcheck hfailing hcount
    rw [policy.attempts_of_settled (hanswer ▸ Memory.settled_serve _ request), Action.ask_apply,
      hanswer, hreleased]
    rfl
  | succ count ih =>
    have hanswer : Store.memory.answer request m =
        (.error (.throttled Memory.throttledDetail), m.hindered count (m.tally.throttled + 1)) :=
      Memory.answer_throttled hcheck hfailing hcount
    obtain ⟨left, rfl⟩ : ∃ rest, left = rest + 1 := Nat.exists_eq_add_one.mpr (by omega)
    have hfewer : (m.hindered count (m.tally.throttled + 1)).throttling ≤ left := by
      rw [hcount] at hleft
      exact Nat.le_of_succ_le_succ hleft
    have hreleased := Memory.released_hindered hcount
    have hrest := ih (m := m.hindered count (m.tally.throttled + 1)) hcheck hfailing hfewer
      (used + 1) rfl
    simp only [attempts, Action.ask_apply, hanswer, Outcome.ofExcept, hrest, hreleased, throttled]
    rfl

end RetryPolicy

def AsksFor (kind : Request → Prop) (events : List Event) : Prop :=
  ∀ request refusal, Event.asked request refusal ∈ events →
    kind request ∧ ∀ error ∈ refusal, error.isThrottling

namespace AsksFor

variable {kind : Request → Prop} {events rest : List Event}

theorem of_not_asked (h : ∀ request refusal, Event.asked request refusal ∉ events) :
    AsksFor kind events :=
  fun request refusal hmem => absurd hmem (h request refusal)

theorem append (h : AsksFor kind events) (hrest : AsksFor kind rest) :
    AsksFor kind (events ++ rest) := by
  intro request refusal hmem
  cases List.mem_append.mp hmem with
  | inl hmem => exact h request refusal hmem
  | inr hmem => exact hrest request refusal hmem

theorem throttled {request : Request} (h : kind request) (policy : RetryPolicy) (used count : Nat) :
    AsksFor kind (policy.throttled request used count) := by
  induction count generalizing used with
  | zero => exact of_not_asked fun _ _ => List.not_mem_nil
  | succ count ih =>
    intro request' refusal hmem
    rw [RetryPolicy.throttled, List.mem_cons, List.mem_cons, List.mem_cons] at hmem
    obtain hmem | hmem | hmem | hmem := hmem
    · cases hmem
      exact ⟨h, fun error herror => by cases herror; rfl⟩
    · cases hmem
    · cases hmem
    · exact ih (used + 1) request' refusal hmem

theorem answered {request : Request} (h : kind request) : AsksFor kind [.asked request none] := by
  intro request' refusal hmem
  cases List.mem_singleton.mp hmem
  exact ⟨h, fun error herror => by cases herror⟩

end AsksFor

structure Served (retry : RetryPolicy) (kind : Request → Prop) (m : Memory) (events : List Event)
    (after : Memory) : Prop where
  table : after.table = m.table
  bearable : after.Bearable retry
  asked : AsksFor kind events

namespace Served

variable {retry : RetryPolicy} {kind : Request → Prop} {m between after : Memory}
  {before events : List Event}

theorem nothing (h : m.Bearable retry)
    (hevents : ∀ request refusal, Event.asked request refusal ∉ events) :
    Served retry kind m events m :=
  ⟨rfl, h, .of_not_asked hevents⟩

theorem append (h : Served retry kind m before between)
    (hrest : Served retry kind between events after) :
    Served retry kind m (before ++ events) after :=
  ⟨hrest.table.trans h.table, hrest.bearable, h.asked.append hrest.asked⟩

theorem submitted {request : Request} (h : m.Bearable retry) (hkind : kind request)
    (htable : after.table = m.table) (hfailing : after.failing = m.failing)
    (hthrottling : after.throttling = 0) :
    Served retry kind m (retry.throttled request 0 m.throttling ++ [.asked request none]) after :=
  ⟨htable, ⟨hfailing.trans h.failing, hthrottling ▸ Nat.zero_le _⟩,
    (AsksFor.throttled hkind retry 0 m.throttling).append (.answered hkind)⟩

end Served

namespace Gateway

theorem submit_of_serve {table : Table} {retry : RetryPolicy} {m after : Memory}
    {request : Request} {reply : request.Reply} (h : m.Bearable retry)
    (hcheck : m.check request = .ok ())
    (hserve : (m.released.count request).serve request = (.ok reply, after)) :
    (inMemory table retry).submit request m =
      ⟨.done reply, after, retry.throttled request 0 m.throttling ++ [.asked request none]⟩ := by
  have hran := retry.attempts_throttled hcheck h.failing h.throttling 0
  rw [hserve] at hran
  exact hran

end Gateway

end KeyedTable
