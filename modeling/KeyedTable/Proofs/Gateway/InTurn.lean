import KeyedTable.Proofs.Batch.Cutting
import KeyedTable.Proofs.Memory.Progress
import KeyedTable.Proofs.Reading.ParallelScan

namespace KeyedTable

variable {σ α β : Type}

namespace Outcome

theorem all_eq_done_iff {outcomes : List (Outcome α)} {values : List α} :
    all outcomes = .done values ↔ outcomes = values.map .done := by
  induction outcomes generalizing values with
  | nil => cases values <;> simp [all]
  | cons outcome outcomes ih =>
    cases outcome with
    | done value =>
      cases values with
      | nil => cases hrest : all outcomes <;> simp [all, map, hrest]
      | cons first values =>
        rw [List.map_cons, List.cons.injEq, ← ih]
        cases hrest : all outcomes <;> simp [all, map, hrest]
    | failed | unfinished => cases values <;> simp [all]

theorem all_ne_unfinished {outcomes : List (Outcome α)}
    (h : ∀ outcome ∈ outcomes, outcome ≠ .unfinished) : all outcomes ≠ .unfinished := by
  induction outcomes with
  | nil => exact nofun
  | cons outcome outcomes ih =>
    obtain ⟨hfirst, hrest⟩ := List.forall_mem_cons.mp h
    cases outcome with
    | done value =>
      have hall := ih hrest
      cases hothers : all outcomes with
      | done | failed => simp [all, hothers, map]
      | unfinished => exact absurd hothers hall
    | failed => exact nofun
    | unfinished => exact absurd rfl hfirst

theorem all_map_map (f : α → β) (outcomes : List (Outcome α)) :
    all (outcomes.map (map f)) = (all outcomes).map (List.map f) := by
  induction outcomes with
  | nil => rfl
  | cons outcome outcomes ih =>
    cases outcome with
    | done value =>
      rw [List.map_cons, map, all, ih, all]
      cases all outcomes <;> rfl
    | failed | unfinished => rfl

theorem all_map_eq_failed_iff {f : β → Outcome α} {xs : List β} {error : Error} :
    all (xs.map f) = .failed error ↔
      ∃ before first after, xs = before ++ first :: after ∧
        (∀ earlier ∈ before, ∃ value, f earlier = .done value) ∧ f first = .failed error := by
  induction xs with
  | nil => simp [all]
  | cons x xs ih =>
    constructor
    · intro h
      rw [List.map_cons] at h
      cases hx : f x with
      | done value =>
        have hrest : all (xs.map f) = .failed error := by
          rw [hx, all] at h
          cases hrest : all (xs.map f) <;> simp_all [map]
        obtain ⟨before, first, after, rfl, hbefore, hfirst⟩ := ih.mp hrest
        exact ⟨x :: before, first, after, rfl, List.forall_mem_cons.mpr ⟨⟨value, hx⟩, hbefore⟩,
          hfirst⟩
      | failed own =>
        rw [hx, all] at h
        cases h
        exact ⟨[], x, xs, rfl, List.forall_mem_nil _, hx⟩
      | unfinished =>
        rw [hx, all] at h
        cases h
    · rintro ⟨before, first, after, heq, hbefore, hfirst⟩
      cases before with
      | nil =>
        obtain ⟨rfl, rfl⟩ := List.cons.inj heq
        rw [List.map_cons, hfirst]
        rfl
      | cons earlier before =>
        obtain ⟨rfl, rfl⟩ := List.cons.inj heq
        obtain ⟨⟨value, hvalue⟩, hbefore⟩ := List.forall_mem_cons.mp hbefore
        rw [List.map_cons, hvalue, all, ih.mpr ⟨before, first, after, rfl, hbefore, hfirst⟩]
        rfl

end Outcome

def Action.inTurn : List (Action σ α) → σ → List (Ran σ α)
  | [], _ => []
  | action :: actions, s => action s :: inTurn actions (action s).store

def Ran.left (s : σ) : List (Ran σ α) → σ
  | [] => s
  | ran :: runs => left ran.store runs

/-- What a run comes to that is made of these runs. `gather` puts together what they give back. -/
structure Ran.Totals (gather : List α → β) (s : σ) (runs : List (Ran σ α)) (ran : Ran σ β) :
    Prop where
  done_iff : ∀ value, ran.outcome = .done value ↔
    ∃ values, runs.map Ran.outcome = values.map .done ∧ gather values = value
  failed_iff : ∀ error, ran.outcome = .failed error ↔
    ∃ before first after, runs = before ++ first :: after ∧
      (∀ earlier ∈ before, ∃ value, earlier.outcome = .done value) ∧ first.outcome = .failed error
  store : ran.store = Ran.left s runs
  events : ∃ notices : List Notice, ran.events = runs.flatMap Ran.events ++ notices.map .logged

namespace Action

variable {actions : List (Action σ α)} {s : σ}

theorem all_outcome (actions : List (Action σ α)) (s : σ) :
    (all actions s).outcome = .all ((inTurn actions s).map Ran.outcome) := by
  induction actions generalizing s with
  | nil => rfl
  | cons action actions ih =>
    have hrest := ih (action s).store
    simp only [all_cons, inTurn, List.map_cons, hrest]
    cases (action s).outcome <;> rfl

theorem all_done_iff {values : List α} :
    (all actions s).outcome = .done values ↔
      (inTurn actions s).map Ran.outcome = values.map .done := by
  rw [all_outcome, Outcome.all_eq_done_iff]

theorem all_failed_iff {error : Error} :
    (all actions s).outcome = .failed error ↔
      ∃ before first after, inTurn actions s = before ++ first :: after ∧
        (∀ earlier ∈ before, ∃ value, earlier.outcome = .done value) ∧
        first.outcome = .failed error := by
  rw [all_outcome, Outcome.all_map_eq_failed_iff]

theorem all_store : (all actions s).store = Ran.left s (inTurn actions s) := by
  induction actions generalizing s with
  | nil => rfl
  | cons action actions ih => exact ih

theorem all_events : (all actions s).events = (inTurn actions s).flatMap Ran.events := by
  induction actions generalizing s with
  | nil => rfl
  | cons action actions ih => simp only [all, inTurn, ih, List.flatMap_cons]

theorem totals_all (actions : List (Action σ α)) (s : σ) :
    Ran.Totals id s (inTurn actions s) (all actions s) where
  done_iff value := by simp [all_done_iff]
  failed_iff _ := all_failed_iff
  store := all_store
  events := ⟨[], by rw [all_events, List.map_nil, List.append_nil]⟩

theorem bind_of_unfinished {first : Action σ α} {next : α → Action σ β}
    (h : (first s).outcome = .unfinished) :
    (first >>= next) s = ⟨.unfinished, (first s).store, (first s).events⟩ := by
  simp only [bind_apply, bind, h]

theorem exists_notices_bind (first : Action σ α) {next : α → Action σ β} {f : α → β}
    (hnext : ∀ value t, ∃ notices : List Notice,
      next value t = ⟨.done (f value), t, notices.map .logged⟩) (s : σ) :
    ∃ notices : List Notice, (first >>= next) s =
      ⟨(first s).outcome.map f, (first s).store, (first s).events ++ notices.map .logged⟩ := by
  cases hfirst : (first s).outcome with
  | done value =>
    obtain ⟨notices, hlast⟩ := hnext value (first s).store
    exact ⟨notices, by rw [bind_of_done hfirst, hlast, Outcome.map]⟩
  | failed error => exact ⟨[], by simp [bind_of_failed hfirst, Outcome.map]⟩
  | unfinished => exact ⟨[], by simp [bind_of_unfinished hfirst, Outcome.map]⟩

end Action

theorem Outcome.map_eq_done_iff {f : α → β} {outcome : Outcome α} {result : β} :
    outcome.map f = .done result ↔ ∃ value, outcome = .done value ∧ f value = result := by
  cases outcome <;> simp [map]

theorem Outcome.map_eq_failed_iff {f : α → β} {outcome : Outcome α} {error : Error} :
    outcome.map f = .failed error ↔ outcome = .failed error := by
  cases outcome <;> simp [map]

theorem Ran.Totals.bind {gather : List α → β} {γ : Type} {f : β → γ} {first : Action σ β}
    {next : β → Action σ γ} {s : σ} {runs : List (Ran σ α)} (h : Totals gather s runs (first s))
    (hnext : ∀ value t, ∃ notices : List Notice,
      next value t = ⟨.done (f value), t, notices.map .logged⟩) :
    Totals (f ∘ gather) s runs ((first >>= next) s) := by
  obtain ⟨notices, hran⟩ := Action.exists_notices_bind first hnext s
  obtain ⟨earlier, hearlier⟩ := h.events
  rw [hran]
  refine ⟨fun result => ?_, fun error => ?_, h.store, earlier ++ notices, ?_⟩
  · rw [Outcome.map_eq_done_iff]
    constructor
    · rintro ⟨value, hfirst, rfl⟩
      obtain ⟨values, hruns, rfl⟩ := (h.done_iff value).mp hfirst
      exact ⟨values, hruns, rfl⟩
    · rintro ⟨values, hruns, rfl⟩
      exact ⟨gather values, (h.done_iff _).mpr ⟨values, hruns, rfl⟩, rfl⟩
  · rw [Outcome.map_eq_failed_iff]
    exact h.failed_iff error
  · rw [hearlier, List.map_append, List.append_assoc]

theorem deliveries_logged (notices : List Notice) : deliveries (notices.map .logged) = [] := by
  induction notices with
  | nil => rfl
  | cons notice notices ih => exact ih

theorem Ran.Totals.pages {gather : List α → β} {s : σ} {runs : List (Ran σ α)} {ran : Ran σ β}
    (h : Totals gather s runs ran) :
    deliveries ran.events = runs.flatMap fun part => deliveries part.events := by
  obtain ⟨notices, hevents⟩ := h.events
  rw [hevents, deliveries_append, deliveries_logged, List.append_nil]
  exact List.filterMap_flatMap

namespace Gateway

variable (g : Gateway σ) (s : σ)

theorem batchWrite_totals (entries : List WriteEntry) :
    Ran.Totals (fun _ => ()) s
      (Action.inTurn ((batches writeBatchSize (entries.map (WriteEntry.reduce g.table))).map
        g.writeOne) s)
      (g.batchWrite entries s) :=
  (Action.totals_all _ s).bind (f := fun _ => ()) fun _ _ => ⟨[.wroteBatch _ _], rfl⟩

theorem batchGet_totals (keys : List Item) :
    Ran.Totals List.flatten s
      (Action.inTurn ((batches getBatchSize (keys.map g.table.keyOf)).map g.getOne) s)
      (g.batchGet keys s) :=
  (Action.totals_all _ s).bind (f := List.flatten) fun _ _ => ⟨[.gotBatch _ _], rfl⟩

theorem scanReads_starts {g : Gateway σ} {segments : Nat} {options : ScanOptions}
    {start : Option (List (Option Item))} {reads : List Read}
    (h : g.scanReads segments options start = .ok reads) :
    reads.map (fun read => (read.scope, read.start)) =
      (segmentStarts segments start).map fun first => (.segment first.1 segments, first.2) := by
  obtain ⟨_, -, h⟩ := exists_of_bind_ok h
  obtain ⟨_, -, h⟩ := exists_of_bind_ok h
  obtain ⟨filter, -, h⟩ := exists_of_bind_ok h
  cases h
  simp

theorem lt_of_mem_segmentStarts {start : Option (List (Option Item))}
    (hcursors : checkCursors total start = .ok ()) {first : Nat × Option Item}
    (hfirst : first ∈ segmentStarts total start) : first.1 < total := by
  cases start with
  | none =>
    obtain ⟨number, hnumber, rfl⟩ := List.mem_map.mp hfirst
    exact List.mem_range.mp hnumber
  | some cursors =>
    have hlength : cursors.length = total := by
      unfold checkCursors at hcursors
      split at hcursors
      · cases hcursors
      · simpa using hcursors
    obtain ⟨⟨cursor, number⟩, hmem, hkey⟩ := List.mem_filterMap.mp hfirst
    obtain ⟨key, -, rfl⟩ := Option.map_eq_some_iff.mp hkey
    obtain ⟨hlt, -⟩ := List.getElem?_eq_some_iff.mp (List.mem_zipIdx_iff_getElem?.mp hmem)
    exact hlength ▸ hlt

theorem scanReads_scope {g : Gateway σ} {segments : Nat} {options : ScanOptions}
    {start : Option (List (Option Item))} {reads : List Read}
    (h : g.scanReads segments options start = .ok reads) :
    ∀ first ∈ reads, ∃ number < segments, first.scope = .segment number segments := by
  intro first hfirst
  obtain ⟨_, hcursors, -⟩ := exists_of_bind_ok h
  have hmem := List.mem_map_of_mem (f := fun read => (read.scope, read.start)) hfirst
  rw [scanReads_starts h] at hmem
  obtain ⟨begin, hbegin, heq⟩ := List.mem_map.mp hmem
  exact ⟨begin.1, lt_of_mem_segmentStarts hcursors hbegin, (Prod.mk.inj heq).1.symm⟩

theorem exists_scan_eq_readFrom {g : Gateway σ} {options : ScanOptions} {start : Option Item}
    {reads : List Read}
    (h : g.scanReads 1 options (start.map fun key => [some key]) = .ok reads) :
    ∃ first, reads = [first] ∧ g.scan options start = g.readFrom (some none) first := by
  have hlength : reads.length = 1 := by
    have hstarts := congrArg List.length (scanReads_starts h)
    cases start <;> simpa [segmentStarts] using hstarts
  obtain ⟨first, rfl⟩ := List.length_eq_one_iff.mp hlength
  refine ⟨first, rfl, ?_⟩
  rw [scan, parallelScan, h, Action.ofExcept_bind, List.map_singleton, Action.all_singleton,
    bind_assoc]
  exact bind_pure _

theorem parallelScan_totals {segments : Nat} {options : ScanOptions}
    {start : Option (List (Option Item))} {reads : List Read}
    (h : g.scanReads segments options start = .ok reads) :
    Ran.Totals (fun _ => ()) s (Action.inTurn (reads.map (g.readFrom (some none))) s)
      (g.parallelScan segments options start s) := by
  rw [parallelScan, h, Action.ofExcept_bind]
  exact (Action.totals_all _ s).bind (f := fun _ => ()) fun _ _ => ⟨[], rfl⟩

end Gateway

end KeyedTable
