import KeyedTable.Gateway.Session
import KeyedTable.Proofs.Reading.Turns

namespace KeyedTable

variable {σ α β : Type} {I : σ → Prop} {P : σ → List Event → σ → Prop}

structure Passage (P : σ → List Event → σ → Prop) : Prop where
  nothing : ∀ s, P s [] s
  logged : ∀ notice s, P s [.logged notice] s
  append : ∀ {s t u before after}, P s before t → P t after u → P s (before ++ after) u

structure Ran.Passed (I : σ → Prop) (P : σ → List Event → σ → Prop) (s : σ) (ran : Ran σ α) :
    Prop where
  ends : ran.outcome ≠ .unfinished
  store : I ran.store
  way : P s ran.events ran.store

theorem Ran.Passed.bind (hP : Passage P) {first : Action σ α} {next : α → Action σ β} {s : σ}
    (hfirst : (first s).Passed I P s)
    (hnext : ∀ value, (first s).outcome = .done value →
      (next value (first s).store).Passed I P (first s).store) :
    ((first >>= next) s).Passed I P s := by
  cases houtcome : (first s).outcome with
  | done value =>
    obtain ⟨hends, hstore, hway⟩ := hnext value houtcome
    rw [Action.bind_of_done houtcome]
    exact ⟨hends, hstore, hP.append hfirst.way hway⟩
  | failed error =>
    rw [Action.bind_of_failed houtcome]
    exact ⟨nofun, hfirst.store, hfirst.way⟩
  | unfinished => exact absurd houtcome hfirst.ends

theorem Ran.Passed.bind_pure (hP : Passage P) {first : Action σ α} {s : σ}
    (hfirst : (first s).Passed I P s) (f : α → β) :
    ((first >>= fun value => return f value) s).Passed I P s :=
  hfirst.bind hP fun _ _ => ⟨nofun, hfirst.store, hP.nothing _⟩

def Action.Passes (I : σ → Prop) (P : σ → List Event → σ → Prop) (action : Action σ α) : Prop :=
  ∀ s, I s → (action s).Passed I P s

namespace Action.Passes

theorem pure (hP : Passage P) (value : α) : Passes I P (Pure.pure value : Action σ α) :=
  fun s hs => ⟨nofun, hs, hP.nothing s⟩

theorem log (hP : Passage P) (notice : Notice) :
    Passes I P (Action.note (.logged notice) : Action σ Unit) :=
  fun s hs => ⟨nofun, hs, hP.logged notice s⟩

theorem bind {first : Action σ α} {next : α → Action σ β} (hfirst : first.Passes I P)
    (hP : Passage P) (hnext : ∀ value, (next value).Passes I P) : (first >>= next).Passes I P :=
  fun s hs => (hfirst s hs).bind hP fun value _ => hnext value _ (hfirst s hs).store

theorem ofExcept_bind (hP : Passage P) {result : Except Error α} {next : α → Action σ β}
    (h : ∀ value, result = .ok value → (next value).Passes I P) :
    (Action.ofExcept result >>= next).Passes I P := by
  cases result with
  | ok value => exact h value rfl
  | error error => exact fun s hs => ⟨nofun, hs, hP.nothing s⟩

theorem all (hP : Passage P) {actions : List (Action σ α)}
    (h : ∀ action ∈ actions, action.Passes I P) : (Action.all actions).Passes I P := by
  induction actions with
  | nil => exact pure hP []
  | cons action actions ih =>
    obtain ⟨haction, hactions⟩ := List.forall_mem_cons.mp h
    intro s hs
    obtain ⟨hends, hstore, hway⟩ := haction s hs
    obtain ⟨hlast, hafter, hrest⟩ := ih hactions _ hstore
    refine ⟨?_, hafter, hP.append hway hrest⟩
    simp only [Action.all]
    cases houtcome : (action s).outcome with
    | done value =>
      cases hothers : (Action.all actions (action s).store).outcome with
      | done values => simp
      | failed error => simp
      | unfinished => exact absurd hothers hlast
    | failed error => simp
    | unfinished => exact absurd houtcome hends

end Action.Passes

namespace Gateway

variable {g : Gateway σ}

/-! A loop comes to its end before the rounds are used up, if less is left to do with each. -/

theorem Paged.passes (hP : Passage P) (hsubmit : ∀ request, (g.submit request).Passes I P)
    (left : Read → σ → Nat)
    (hpage : ∀ {read s page t events} prev, I s →
      g.submit (.read read) s = ⟨.done page, t, events⟩ →
      let handedOut := delivery g.table prev read page
      I (g.visit handedOut t) ∧ P s (events ++ [.delivered handedOut]) (g.visit handedOut t) ∧
        ∀ key limit, page.lastKey = some key →
          left { read with start := some key, limit } (g.visit handedOut t) < left read s)
    {rounds : Nat} {prev : Option (Option Item)} {read : Read} {s : σ} {ran : Ran σ Unit}
    (h : g.Paged rounds prev read s ran) (hs : I s) (hrounds : left read s < rounds) :
    ran.Passed I P s := by
  induction h with
  | cutOff => exact absurd hrounds (Nat.not_lt_zero _)
  | @failed _ _ read s _ _ _ hrefused =>
    have hran := hsubmit (.read read) s hs
    rw [hrefused] at hran
    exact ⟨nofun, hran.store, hran.way⟩
  | last hreply _ =>
    obtain ⟨hstore, hway, -⟩ := hpage _ hs hreply
    exact ⟨nofun, hstore, hway⟩
  | @more _ _ _ _ _ _ _ key limit _ hreply hkey _ _ ih =>
    obtain ⟨hstore, hway, hless⟩ := hpage _ hs hreply
    have hrest := ih hstore (by have := hless key limit hkey; omega)
    have hall := hP.append hway hrest.way
    rw [List.append_assoc] at hall
    exact ⟨hrest.ends, hrest.store, hall⟩

theorem writeRounds_passed (hP : Passage P) (hsubmit : ∀ request, (g.submit request).Passes I P)
    (left : List WriteEntry → σ → Nat)
    (hless : ∀ {entries s unprocessed}, entries ≠ [] →
      (g.submit (.writeBatch g.table.name entries) s).outcome = .done unprocessed →
      unprocessed ≠ [] →
      left unprocessed (g.submit (.writeBatch g.table.name entries) s).store < left entries s)
    {rounds : Nat} {entries : List WriteEntry} {s : σ} (hs : I s)
    (hrounds : entries ≠ [] → left entries s < rounds) :
    (g.writeRounds rounds entries s).Passed I P s := by
  induction rounds generalizing entries s with
  | zero =>
    cases entries with
    | nil => exact Action.Passes.pure hP () s hs
    | cons entry entries => exact absurd (hrounds (List.cons_ne_nil _ _)) (Nat.not_lt_zero _)
  | succ rounds ih =>
    cases entries with
    | nil => exact Action.Passes.pure hP () s hs
    | cons entry entries =>
      have hlt := hrounds (List.cons_ne_nil entry entries)
      have hfirst := hsubmit (.writeBatch g.table.name (entry :: entries)) s hs
      refine hfirst.bind hP fun unprocessed houtcome => ih hfirst.store fun hne => ?_
      have := hless (List.cons_ne_nil entry entries) houtcome hne
      omega

theorem getRounds_passed (hP : Passage P) (hsubmit : ∀ request, (g.submit request).Passes I P)
    (left : List Item → σ → Nat)
    (hless : ∀ {keys s found}, keys ≠ [] →
      (g.submit (.getBatch g.table.name keys) s).outcome = .done found → found.unprocessed ≠ [] →
      left found.unprocessed (g.submit (.getBatch g.table.name keys) s).store < left keys s)
    {rounds : Nat} {keys : List Item} {s : σ} (hs : I s)
    (hrounds : keys ≠ [] → left keys s < rounds) : (g.getRounds rounds keys s).Passed I P s := by
  induction rounds generalizing keys s with
  | zero =>
    cases keys with
    | nil => exact Action.Passes.pure hP [] s hs
    | cons key keys => exact absurd (hrounds (List.cons_ne_nil _ _)) (Nat.not_lt_zero _)
  | succ rounds ih =>
    cases keys with
    | nil => exact Action.Passes.pure hP [] s hs
    | cons key keys =>
      have hlt := hrounds (List.cons_ne_nil key keys)
      have hfirst := hsubmit (.getBatch g.table.name (key :: keys)) s hs
      refine hfirst.bind hP fun found houtcome => ?_
      have hothers := @ih found.unprocessed _ hfirst.store fun hne => by
        have := hless (List.cons_ne_nil key keys) houtcome hne
        omega
      exact hothers.bind_pure hP _

structure Passes (g : Gateway σ) (I : σ → Prop) (P : σ → List Event → σ → Prop) : Prop where
  submit : ∀ request, (g.submit request).Passes I P
  readFrom : ∀ prev read, (g.readFrom prev read).Passes I P
  writeOne : ∀ entries, (g.writeOne entries).Passes I P
  getOne : ∀ keys, (g.getOne keys).Passes I P

namespace Passes

theorem get (h : g.Passes I P) (hP : Passage P) (key : Item) : (g.get key).Passes I P :=
  (h.submit _).bind hP fun _ => (Action.Passes.log hP _).bind hP fun _ => .pure hP _

theorem put (h : g.Passes I P) (hP : Passage P) (item : Item) (condition : Option String) :
    (g.put item condition).Passes I P :=
  .ofExcept_bind hP fun _ _ => (h.submit _).bind hP fun _ => .log hP _

theorem batchWrite (h : g.Passes I P) (hP : Passage P) (entries : List WriteEntry) :
    (g.batchWrite entries).Passes I P := by
  refine (Action.Passes.all hP fun action haction => ?_).bind hP fun _ => .log hP _
  obtain ⟨block, -, rfl⟩ := List.mem_map.mp haction
  exact h.writeOne block

theorem batchGet (h : g.Passes I P) (hP : Passage P) (keys : List Item) :
    (g.batchGet keys).Passes I P := by
  refine (Action.Passes.all hP fun action haction => ?_).bind hP fun _ =>
    (Action.Passes.log hP _).bind hP fun _ => .pure hP _
  obtain ⟨block, -, rfl⟩ := List.mem_map.mp haction
  exact h.getOne block

theorem query (h : g.Passes I P) (hP : Passage P) (key : String) (options : QueryOptions) :
    (g.query key options).Passes I P :=
  .ofExcept_bind hP fun _ _ => h.readFrom _ _

theorem parallelScan (h : g.Passes I P) (hP : Passage P) (segments : Nat) (options : ScanOptions)
    (start : Option (List (Option Item))) : (g.parallelScan segments options start).Passes I P := by
  refine .ofExcept_bind hP fun reads _ => (Action.Passes.all hP fun action haction => ?_).bind hP
    fun _ => .pure hP ()
  obtain ⟨read, -, rfl⟩ := List.mem_map.mp haction
  exact h.readFrom _ read

theorem perform (h : g.Passes I P) (hP : Passage P) (operation : Operation) :
    (g.perform operation).Passes I P := by
  cases operation with
  | get key => exact (h.get hP key).bind hP fun _ => .pure hP _
  | put item condition => exact (h.put hP item condition).bind hP fun _ => .pure hP _
  | batchWrite entries => exact (h.batchWrite hP entries).bind hP fun _ => .pure hP _
  | batchGet keys => exact (h.batchGet hP keys).bind hP fun _ => .pure hP _
  | query key options => exact (h.query hP key options).bind hP fun _ => .pure hP _
  | scan options start => exact (h.parallelScan hP 1 options _).bind hP fun _ => .pure hP _
  | parallelScan segments options start =>
    exact (h.parallelScan hP segments options start).bind hP fun _ => .pure hP _

end Passes

end Gateway

end KeyedTable
