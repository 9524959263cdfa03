import Mathlib.Data.List.Forall2
import KeyedTable.Gateway.Together

namespace KeyedTable

variable {σ τ α α' β β' : Type} {V : α → α' → Prop} {W : β → β' → Prop} {R : σ → τ → Prop}
  {P : Event → Event → Prop} {Q : Read → Read → Prop}

inductive Outcome.Rel (V : α → α' → Prop) : Outcome α → Outcome α' → Prop
  | done {value other} : V value other → Rel V (.done value) (.done other)
  | failed (error : Error) : Rel V (.failed error) (.failed error)
  | unfinished : Rel V .unfinished .unfinished

theorem Outcome.Rel.refl {V : α → α → Prop} (hV : ∀ value, V value value) (outcome : Outcome α) :
    outcome.Rel V outcome := by
  cases outcome with
  | done value => exact .done (hV value)
  | failed error => exact .failed error
  | unfinished => exact .unfinished

theorem Outcome.rel_eq_iff {outcome other : Outcome α} :
    outcome.Rel Eq other ↔ outcome = other := by
  constructor
  · intro h
    cases h with
    | done h => exact congrArg Outcome.done h
    | failed | unfinished => rfl
  · rintro rfl
    exact .refl (fun _ => rfl) outcome

structure Ran.SideBySide (V : α → α' → Prop) (R : σ → τ → Prop) (P : Event → Event → Prop)
    (ran : Ran σ α) (other : Ran τ α') : Prop where
  outcome : ran.outcome.Rel V other.outcome
  store : R ran.store other.store
  events : List.Forall₂ P ran.events other.events

theorem Ran.SideBySide.after {ran : Ran σ α} {ran' : Ran τ α'} (h : ran.SideBySide V R P ran')
    {event event' : Event} (hevent : P event event') :
    (ran.after event).SideBySide V R P (ran'.after event') :=
  ⟨h.outcome, h.store, .cons hevent h.events⟩

def Action.SideBySide (V : α → α' → Prop) (R : σ → τ → Prop) (P : Event → Event → Prop)
    (action : Action σ α) (other : Action τ α') : Prop :=
  ∀ s t, R s t → (action s).SideBySide V R P (other t)

namespace Action.SideBySide

theorem pure {value : α} {other : α'} (h : V value other) :
    SideBySide V R P (Pure.pure value : Action σ α) (Pure.pure other : Action τ α') :=
  fun _ _ hst => ⟨.done h, hst, .nil⟩

theorem note {event event' : Event} (h : P event event') :
    SideBySide Eq R P (Action.note event) (Action.note event') :=
  fun _ _ hst => ⟨.done rfl, hst, .cons h .nil⟩

theorem ofExcept (result : Except Error α) :
    SideBySide Eq R P (Action.ofExcept result) (Action.ofExcept result) := by
  cases result with
  | ok value => exact pure rfl
  | error error => exact fun _ _ hst => ⟨.failed error, hst, .nil⟩

theorem bind {first : Action σ α} {first' : Action τ α'} {next : α → Action σ β}
    {next' : α' → Action τ β'} (hfirst : SideBySide V R P first first')
    (hnext : ∀ value value', V value value' → SideBySide W R P (next value) (next' value')) :
    SideBySide W R P (first >>= next) (first' >>= next') := by
  intro s t hst
  have hran := hfirst s t hst
  simp only [bind_apply, Action.bind]
  generalize first s = ran, first' t = ran' at hran ⊢
  obtain ⟨outcome, u, events⟩ := ran
  obtain ⟨outcome', u', events'⟩ := ran'
  obtain ⟨houtcome, hstore, hevents⟩ := hran
  cases houtcome with
  | done hvalue =>
    obtain ⟨houtcome', hstore', hevents'⟩ := hnext _ _ hvalue _ _ hstore
    exact ⟨houtcome', hstore', List.rel_append hevents hevents'⟩
  | failed error => exact ⟨.failed error, hstore, hevents⟩
  | unfinished => exact ⟨.unfinished, hstore, hevents⟩

theorem all {actions : List (Action σ α)} {actions' : List (Action τ α')}
    (h : List.Forall₂ (SideBySide V R P) actions actions') :
    SideBySide (List.Forall₂ V) R P (Action.all actions) (Action.all actions') := by
  induction h with
  | nil => exact pure .nil
  | @cons action action' actions actions' haction _ ih =>
    intro s t hst
    obtain ⟨houtcome, hstore, hevents⟩ := haction s t hst
    obtain ⟨houtcomes, hstores, hothers⟩ := ih _ _ hstore
    refine ⟨?_, hstores, List.rel_append hevents hothers⟩
    simp only [all_cons]
    generalize (action s).outcome = outcome, (action' t).outcome = outcome' at houtcome ⊢
    generalize (Action.all actions (action s).store).outcome = outcomes,
      (Action.all actions' (action' t).store).outcome = outcomes' at houtcomes ⊢
    cases houtcome with
    | done hvalue =>
      cases houtcomes with
      | done hvalues => exact .done (.cons hvalue hvalues)
      | failed error => exact .failed error
      | unfinished => exact .unfinished
    | failed error => exact .failed error
    | unfinished => exact .unfinished

end Action.SideBySide

/-- Tasks that do the same but for requests and events that may differ. -/
inductive Task.SideBySide (Q : Read → Read → Prop) (P : Event → Event → Prop) :
    Task α → Task α → Prop
  | ended (outcome : Outcome α) : SideBySide Q P (.ended outcome) (.ended outcome)
  | ask {request : Request} {answered answered' : Except Error request.Reply → Task α} :
      (∀ result, SideBySide Q P (answered result) (answered' result)) →
      SideBySide Q P (.ask request answered) (.ask request answered')
  | askRead {read other : Read} {answered answered' : Except Error Page → Task α} :
      Q read other → (∀ result, SideBySide Q P (answered result) (answered' result)) →
      SideBySide Q P (.ask (.read read) answered) (.ask (.read other) answered')
  | emit {event event' : Event} {rest rest' : Task α} : P event event' →
      SideBySide Q P rest rest' → SideBySide Q P (.emit event rest) (.emit event' rest')
  | pause {rest rest' : Task α} : SideBySide Q P rest rest' →
      SideBySide Q P (.pause rest) (.pause rest')

namespace Task.SideBySide

variable {task task' : Task α}

theorem refl (hP : ∀ event, P event event) (task : Task α) : task.SideBySide Q P task := by
  induction task with
  | ended outcome => exact .ended outcome
  | ask request answered ih => exact .ask ih
  | emit event rest ih => exact .emit (hP event) ih
  | pause rest ih => exact .pause ih

theorem pauseIf (pauses : Bool) (h : task.SideBySide Q P task') :
    (Task.pauseIf pauses task).SideBySide Q P (Task.pauseIf pauses task') := by
  cases pauses with
  | true => exact .pause h
  | false => exact h

theorem bind {next next' : α → Task β} (h : task.SideBySide Q P task')
    (hnext : ∀ value, (next value).SideBySide Q P (next' value)) :
    (task >>= next).SideBySide Q P (task' >>= next') := by
  induction h with
  | ended outcome =>
    cases outcome with
    | done value => exact hnext value
    | failed error => exact .ended (.failed error)
    | unfinished => exact .ended .unfinished
  | ask _ ih => exact .ask ih
  | askRead hread _ ih => exact .askRead hread ih
  | emit hevent _ ih => exact .emit hevent ih
  | pause _ ih => exact .pause ih

theorem asking (hlogged : ∀ notice, P (.logged notice) (.logged notice))
    (hwaited : ∀ milliseconds, P (.waited milliseconds) (.waited milliseconds))
    (policy : RetryPolicy) (pauses : Pauses) {read other : Read} (h : Q read other)
    (left used : Nat) :
    (policy.asking pauses (.read read) left used).SideBySide Q P
      (policy.asking pauses (.read other) left used) := by
  induction left generalizing used with
  | zero => exact pauseIf _ (.askRead h fun result => pauseIf _ (.ended (.ofExcept result)))
  | succ left ih =>
    refine pauseIf _ (.askRead h fun result => pauseIf _ ?_)
    cases result with
    | ok page => exact .ended (.done page)
    | error error =>
      cases error with
      | throttled detail =>
        exact .emit (hlogged _) (.emit (hwaited _) (pauseIf _ (ih (used + 1))))
      | _ => exact .ended (.failed _)

end Task.SideBySide

/-- Gateways that answer alike and receive alike. -/
structure Gateway.SideBySide (R : σ → τ → Prop) (Q : Read → Read → Prop)
    (P : Event → Event → Prop) (g : Gateway σ) (g' : Gateway τ) : Prop where
  answers : ∀ request s t, R s t →
    (g'.store.answer request t).1 = (g.store.answer request s).1 ∧
      R (g.store.answer request s).2 (g'.store.answer request t).2
  reads : ∀ read other s t, Q read other → R s t →
    (g'.store.answer (.read other) t).1 = (g.store.answer (.read read) s).1 ∧
      R (g.store.answer (.read read) s).2 (g'.store.answer (.read other) t).2
  asked : ∀ request refusal, P (.asked request refusal) (.asked request refusal)
  askedRead : ∀ read other refusal, Q read other →
    P (.asked (.read read) refusal) (.asked (.read other) refusal)
  receives : ∀ event event' s t, P event event' → R s t →
    R (g.receive event s) (g'.receive event' t)

theorem Gateway.takeUp_succ (g : Gateway σ) (task : Task α) (tasks : List (Task α)) (number : Nat) :
    g.takeUp (task :: tasks) (number + 1) =
      (g.takeUp tasks number >>= fun rests => return task :: rests) := by
  rw [takeUp, takeUp, List.getElem?_cons_succ]
  cases tasks[number]? with
  | none => rfl
  | some next => simp only [List.set_cons_succ, bind_assoc, pure_bind]

namespace Gateway.SideBySide

variable {g : Gateway σ} {g' : Gateway τ}

theorem poll (hg : g.SideBySide R Q P g') {task task' : Task α} (h : task.SideBySide Q P task') :
    Action.SideBySide (Task.SideBySide Q P) R P (g.poll task) (g'.poll task') := by
  induction h with
  | ended outcome => exact .pure (.ended outcome)
  | @ask request _ _ _ ih =>
    intro s t hst
    obtain ⟨hanswer, hstore⟩ := hg.answers request s t hst
    have hrest := ih (g.store.answer request s).1 _ _ hstore
    simp only [Gateway.poll, hanswer]
    exact hrest.after (hg.asked request _)
  | @askRead read other _ _ hread _ ih =>
    intro s t hst
    obtain ⟨hanswer, hstore⟩ := hg.reads read other s t hread hst
    have hrest := ih (g.store.answer (.read read) s).1 _ _ hstore
    simp only [Gateway.poll, hanswer]
    exact hrest.after (hg.askedRead read other _ hread)
  | emit hevent _ ih =>
    exact fun s t hst => (ih _ _ (hg.receives _ _ s t hevent hst)).after hevent
  | pause h _ => exact .pure h

theorem carryOut (hg : g.SideBySide R Q P g') {task task' : Task α}
    (h : task.SideBySide Q P task') :
    Action.SideBySide Eq R P (g.carryOut task) (g'.carryOut task') := by
  induction h with
  | ended outcome => exact fun _ _ hst => ⟨.refl (fun _ => rfl) outcome, hst, .nil⟩
  | @ask request _ _ _ ih =>
    intro s t hst
    obtain ⟨hanswer, hstore⟩ := hg.answers request s t hst
    have hrest := ih (g.store.answer request s).1 _ _ hstore
    simp only [Gateway.carryOut, hanswer]
    exact hrest.after (hg.asked request _)
  | @askRead read other _ _ hread _ ih =>
    intro s t hst
    obtain ⟨hanswer, hstore⟩ := hg.reads read other s t hread hst
    have hrest := ih (g.store.answer (.read read) s).1 _ _ hstore
    simp only [Gateway.carryOut, hanswer]
    exact hrest.after (hg.askedRead read other _ hread)
  | emit hevent _ ih =>
    exact fun s t hst => (ih _ _ (hg.receives _ _ s t hevent hst)).after hevent
  | pause _ ih => exact ih

theorem takeUp (hg : g.SideBySide R Q P g') {tasks tasks' : List (Task α)}
    (h : List.Forall₂ (Task.SideBySide Q P) tasks tasks') (number : Nat) :
    Action.SideBySide (List.Forall₂ (Task.SideBySide Q P)) R P (g.takeUp tasks number)
      (g'.takeUp tasks' number) := by
  induction h generalizing number with
  | nil => exact .pure .nil
  | cons hfirst hothers ih =>
    cases number with
    | zero => exact (hg.poll hfirst).bind fun _ _ hrest => .pure (.cons hrest hothers)
    | succ number =>
      rw [takeUp_succ, takeUp_succ]
      exact (ih number).bind fun _ _ hrests => .pure (.cons hfirst hrests)

theorem together (hg : g.SideBySide R Q P g') (schedule : List Nat)
    {starts : List (σ → Task α)} {starts' : List (τ → Task α)}
    (h : List.Forall₂ (fun start start' => ∀ s t, R s t → (start s).SideBySide Q P (start' t))
      starts starts') :
    Action.SideBySide (List.Forall₂ Eq) R P (g.together schedule starts)
      (g'.together schedule starts') := by
  have hbegin : List.Forall₂ (Action.SideBySide (Task.SideBySide Q P) R P) (starts.map g.begin)
      (starts'.map g'.begin) :=
    List.forall₂_map_left_iff.mpr (List.forall₂_map_right_iff.mpr (h.imp fun _ _ hstart s t hst =>
      hg.poll (hstart s t hst) s t hst))
  refine (Action.SideBySide.all hbegin).bind fun begun begun' hbegun => ?_
  have hschedule : Action.SideBySide (List.Forall₂ (Task.SideBySide Q P)) R P
      (schedule.foldlM g.takeUp begun) (schedule.foldlM g'.takeUp begun') := by
    clear hbegin
    induction schedule generalizing begun begun' with
    | nil => exact .pure hbegun
    | cons number schedule ih =>
      rw [List.foldlM_cons, List.foldlM_cons]
      exact (hg.takeUp hbegun number).bind ih
  refine hschedule.bind fun left left' hleft => .all ?_
  exact List.forall₂_map_left_iff.mpr (List.forall₂_map_right_iff.mpr (hleft.imp fun _ _ =>
    hg.carryOut))

end Gateway.SideBySide

end KeyedTable
