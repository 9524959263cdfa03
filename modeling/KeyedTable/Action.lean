import KeyedTable.Notice
import KeyedTable.Request

namespace KeyedTable

structure Delivery where
  items : List Item
  /-- The segment the page was read from; 0 for a query. -/
  segment : Nat
  /-- Where the read began; never there for a scan. -/
  prev : Option Item
  next : Option Item
  deriving DecidableEq

inductive Event
  /-- The store was sent a request, and refused it with this error if there is one. -/
  | asked (request : Request) (refusal : Option Error)
  | waited (milliseconds : Nat)
  | logged (notice : Notice)
  | delivered (page : Delivery)
  deriving DecidableEq

inductive Outcome (α : Type)
  | done (value : α)
  | failed (error : Error)
  /-- The store went on beyond its horizon. -/
  | unfinished
  deriving DecidableEq

def Outcome.ofExcept {α : Type} : Except Error α → Outcome α
  | .ok value => .done value
  | .error error => .failed error

def Outcome.map {α β : Type} (f : α → β) : Outcome α → Outcome β
  | .done value => .done (f value)
  | .failed error => .failed error
  | .unfinished => .unfinished

/-- All values if all are done, else the first of the outcomes that is not. -/
def Outcome.all {α : Type} : List (Outcome α) → Outcome (List α)
  | [] => .done []
  | .done value :: outcomes => (all outcomes).map (value :: ·)
  | .failed error :: _ => .failed error
  | .unfinished :: _ => .unfinished

def refusal? {α : Type} : Except Error α → Option Error
  | .ok _ => none
  | .error error => some error

structure Ran (σ α : Type) where
  outcome : Outcome α
  store : σ
  events : List Event

def Ran.after {σ α : Type} (event : Event) (ran : Ran σ α) : Ran σ α :=
  { ran with events := event :: ran.events }

def Action (σ α : Type) := σ → Ran σ α

namespace Action

variable {σ α β : Type}

def done (value : α) : Action σ α := fun s => ⟨.done value, s, []⟩

def fail (error : Error) : Action σ α := fun s => ⟨.failed error, s, []⟩

def unfinished : Action σ α := fun s => ⟨.unfinished, s, []⟩

def note (event : Event) : Action σ Unit := fun s => ⟨.done (), s, [event]⟩

def bind (first : Action σ α) (next : α → Action σ β) : Action σ β := fun s =>
  let ran := first s
  match ran.outcome with
  | .done value =>
    let rest := next value ran.store
    ⟨rest.outcome, rest.store, ran.events ++ rest.events⟩
  | .failed error => ⟨.failed error, ran.store, ran.events⟩
  | .unfinished => ⟨.unfinished, ran.store, ran.events⟩

instance : Monad (Action σ) where
  pure := done
  bind := bind

def ofExcept : Except Error α → Action σ α
  | .ok value => done value
  | .error error => fail error

def ask (store : Store σ) (request : Request) : Action σ request.Reply := fun s =>
  match store.answer request s with
  | (.ok reply, t) => ⟨.done reply, t, [.asked request none]⟩
  | (.error error, t) => ⟨.failed error, t, [.asked request (some error)]⟩

def deliver (visit : Delivery → σ → σ) (page : Delivery) : Action σ Unit := fun s =>
  ⟨.done (), visit page s, [.delivered page]⟩

/-- Runs every action, each from the store that the one before left, whether that one failed or
not. -/
def all : List (Action σ α) → Action σ (List α)
  | [] => done []
  | action :: actions => fun s =>
    let ran := action s
    let rest := all actions ran.store
    { outcome := match ran.outcome, rest.outcome with
        | .done value, .done values => .done (value :: values)
        | .done _, .failed error | .failed error, _ => .failed error
        | .done _, .unfinished | .unfinished, _ => .unfinished
      store := rest.store
      events := ran.events ++ rest.events }

@[simp] theorem pure_apply (value : α) (s : σ) :
    (pure value : Action σ α) s = ⟨.done value, s, []⟩ := rfl

theorem bind_apply (first : Action σ α) (next : α → Action σ β) (s : σ) :
    (first >>= next) s = first.bind next s := rfl

theorem bind_of_done {first : Action σ α} {next : α → Action σ β} {s : σ} {value : α}
    (h : (first s).outcome = .done value) :
    (first >>= next) s =
      ⟨(next value (first s).store).outcome, (next value (first s).store).store,
        (first s).events ++ (next value (first s).store).events⟩ := by
  simp only [bind_apply, bind, h]

theorem bind_of_failed {first : Action σ α} {next : α → Action σ β} {s : σ} {error : Error}
    (h : (first s).outcome = .failed error) :
    (first >>= next) s = ⟨.failed error, (first s).store, (first s).events⟩ := by
  simp only [bind_apply, bind, h]

theorem bind_congr {first other : Action σ α} {s : σ} (h : first s = other s)
    (next : α → Action σ β) : (first >>= next) s = (other >>= next) s := by
  simp only [bind_apply, bind, h]

theorem events_subset_bind (first : Action σ α) (next : α → Action σ β) (s : σ) :
    (first s).events ⊆ ((first >>= next) s).events := by
  simp only [bind_apply, bind]
  cases (first s).outcome with
  | done value => exact List.subset_append_left _ _
  | failed | unfinished => exact List.Subset.refl _

theorem bind_done (action : Action σ α) : (action >>= done) = action := by
  funext s
  rw [bind_apply, bind]
  generalize action s = ran
  obtain ⟨outcome, t, events⟩ := ran
  cases outcome <;> simp [done]

theorem bind_assoc {γ : Type} (first : Action σ α) (next : α → Action σ β)
    (last : β → Action σ γ) :
    ((first >>= next) >>= last) = (first >>= fun value => next value >>= last) := by
  funext s
  simp only [bind_apply, bind]
  cases (first s).outcome with
  | done value =>
    simp only
    cases (next value (first s).store).outcome <;> simp [List.append_assoc]
  | failed | unfinished => rfl

instance : LawfulMonad (Action σ) :=
  LawfulMonad.mk' (Action σ) bind_done (fun _ _ => rfl) bind_assoc

theorem all_cons (action : Action σ α) (actions : List (Action σ α)) (s : σ) :
    all (action :: actions) s =
      let rest := all actions (action s).store
      ⟨match (action s).outcome with
        | .done value => rest.outcome.map (value :: ·)
        | .failed error => .failed error
        | .unfinished => .unfinished,
        rest.store, (action s).events ++ rest.events⟩ := by
  simp only [all]
  cases (action s).outcome with
  | done value => cases (all actions (action s).store).outcome <;> rfl
  | failed | unfinished => rfl

theorem all_cons_of_all {action : Action σ α} {actions : List (Action σ α)} {s t u : σ}
    {outcome : Outcome α} {outcomes : List (Outcome α)} {events rest : List Event}
    (h : action s = ⟨outcome, t, events⟩) (hrest : all actions t = ⟨.all outcomes, u, rest⟩) :
    all (action :: actions) s = ⟨.all (outcome :: outcomes), u, events ++ rest⟩ := by
  simp only [all_cons, h, hrest]
  cases outcome <;> rfl

theorem all_singleton (action : Action σ α) :
    all [action] = (action >>= fun value => return [value]) := by
  funext s
  simp only [all, bind_apply, bind, pure_apply, done]
  cases (action s).outcome <;> simp

theorem bind_after {first other : Action σ α} (next : α → Action σ β) {s t : σ} {event : Event}
    (h : first s = (other t).after event) :
    (first >>= next) s = ((other >>= next) t).after event := by
  simp only [bind_apply, bind, h, Ran.after]
  cases (other t).outcome <;> rfl

end Action

end KeyedTable
