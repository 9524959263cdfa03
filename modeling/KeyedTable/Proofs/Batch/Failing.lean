import KeyedTable.Proofs.Batch.Writing

namespace KeyedTable

theorem drop_batches {α : Type} {size : Nat} (hsize : 0 < size) (count : Nat) (xs : List α) :
    (batches size xs).drop count = batches size (xs.drop (size * count)) := by
  induction count generalizing xs with
  | zero => rfl
  | succ count ih =>
    cases xs with
    | nil => simp [batches_nil hsize]
    | cons x xs =>
      rw [batches_cons hsize (List.cons_ne_nil x xs), List.drop_succ_cons, ih, List.drop_drop,
        Nat.mul_succ, Nat.add_comm]

namespace Memory

variable {m : Memory}

def failure : Error := .request "InternalServerError"

theorem answer_failing {request : Request} {count : Nat} (hcheck : m.check request = .ok ())
    (hcount : m.failing = count + 1) :
    m.answer request = (.error failure, { m with failing := count }) := by
  have hinterrupt : m.interrupt = some (failure, { m with failing := count }) := by
    simp only [interrupt, hcount]
    rfl
  simp only [answer, hcheck, hinterrupt]

end Memory

namespace Gateway

variable {m : Memory} {retry : RetryPolicy}

theorem writeOne_failing (retry : RetryPolicy) {entries : List WriteEntry} {count : Nat}
    (hne : entries ≠ []) (hsize : entries.length ≤ writeBatchSize)
    (hcount : m.failing = count + 1) :
    (inMemory m.table retry).writeOne entries m =
      ⟨.failed Memory.failure, { m with failing := count },
        [.asked (.writeBatch m.table.name entries) (some Memory.failure)]⟩ := by
  have hanswer : Store.memory.answer (.writeBatch m.table.name entries) m =
      (.error Memory.failure, { m with failing := count }) :=
    Memory.answer_failing (Memory.check_writeBatch hne hsize) hcount
  have hsettled : Settled (Store.memory.answer (.writeBatch m.table.name entries) m).1 :=
    hanswer ▸ .error rfl
  have hsubmit : (inMemory m.table retry).submit (.writeBatch m.table.name entries) m =
      ⟨.failed Memory.failure, { m with failing := count },
        [.asked (.writeBatch m.table.name entries) (some Memory.failure)]⟩ := by
    have hattempt := retry.attempts_of_settled hsettled retry.maxRetries 0
    rw [Action.ask_apply, hanswer] at hattempt
    exact hattempt
  cases entries with
  | nil => exact absurd rfl hne
  | cons entry entries =>
    have hrounds : (inMemory m.table retry).writeOne (entry :: entries) m =
        ((inMemory m.table retry).submit (.writeBatch m.table.name (entry :: entries)) >>=
          (inMemory m.table retry).writeRounds (m.items.size + entries.length)) m := rfl
    rw [hrounds, Action.bind_of_failed (congrArg Ran.outcome hsubmit), hsubmit]

theorem exists_writeBlocks_failing {blocks : List (List WriteEntry)}
    (hthrottling : m.throttling ≤ retry.maxRetries) (hne : ∀ block ∈ blocks, block ≠ [])
    (hsize : ∀ block ∈ blocks, block.length ≤ writeBatchSize)
    (hfits : ∀ entry ∈ blocks.flatten, entry.Fits m.table) :
    let ran := Action.all (blocks.map (inMemory m.table retry).writeOne) m
    ((∃ values, ran.outcome = .done values) ∧ (m.failing = 0 ∨ blocks = []) ∨
      ran.outcome = .failed Memory.failure ∧ 0 < m.failing ∧ blocks ≠ []) ∧
      ran.store.items =
        (blocks.drop m.failing).flatten.foldl (WriteEntry.apply m.table) m.items := by
  intro ran
  induction hcount : m.failing generalizing m blocks with
  | zero =>
    obtain ⟨parts, hparted⟩ := (inMemory m.table retry).exists_parted_inTurn
      (blocks.map ((inMemory m.table retry).writeStart ⟨false, false⟩)) m
    rw [map_complete_writeStart] at hparted
    obtain ⟨hdone, rounds, happlies, -⟩ := hparted.applies_inTurn ⟨hcount, hthrottling⟩ hsize hfits
    exact ⟨.inl ⟨⟨_, hdone⟩, .inl rfl⟩, happlies.items⟩
  | succ count ih =>
    cases blocks with
    | nil => exact ⟨.inl ⟨⟨[], rfl⟩, .inr rfl⟩, rfl⟩
    | cons block blocks =>
      obtain ⟨hblock, hblocks⟩ := List.forall_mem_cons.mp hne
      obtain ⟨hfirst, hothers⟩ := List.forall_mem_cons.mp hsize
      have hwrite := writeOne_failing retry hblock hfirst hcount
      have hrest := ih (m := { m with failing := count }) hthrottling hblocks hothers
        (List.forall_mem_append.mp hfits).2 rfl
      have hstore : ran.store = (Action.all (blocks.map (inMemory m.table retry).writeOne)
          { m with failing := count }).store :=
        congrArg (fun first => (Action.all (blocks.map _) first.store).store) hwrite
      have houtcome : ran.outcome = .failed Memory.failure :=
        Action.all_failed_iff.mpr
          ⟨[], _, _, rfl, fun _ hmem => absurd hmem List.not_mem_nil, congrArg Ran.outcome hwrite⟩
      refine ⟨.inr ⟨houtcome, Nat.succ_pos count, List.cons_ne_nil block blocks⟩, ?_⟩
      rw [hstore, List.drop_succ_cons]
      exact hrest.2

theorem batchWrite_failing {entries : List WriteEntry}
    (hthrottling : m.throttling ≤ retry.maxRetries) (hkeys : m.table.primaryKey.names.Nodup)
    (hdeletes : ∀ key, .delete key ∈ entries → m.table.primaryKey.coveredBy key) :
    let ran := (inMemory m.table retry).batchWrite entries m
    ran.outcome =
        (if 0 < m.failing ∧ 0 < entries.length then .failed Memory.failure else .done ()) ∧
      ran.store.items =
        (entries.drop (25 * min m.failing ((entries.length + 24) / 25))).foldl
          (WriteEntry.apply m.table) m.items := by
  intro ran
  let reduced := entries.map (WriteEntry.reduce m.table)
  have hcut := cut_batches (show 0 < writeBatchSize by decide) reduced
  have hfits := WriteEntry.fits_of_mem_reduced hkeys hdeletes
  have hnothing : batches writeBatchSize reduced = [] ↔ entries.length = 0 := by
    rw [List.length_eq_zero_iff, ← List.map_eq_nil_iff (f := WriteEntry.reduce m.table)]
    constructor
    · intro h
      exact hcut.flatten.symm.trans (congrArg List.flatten h)
    · intro h
      exact (congrArg (batches writeBatchSize) h).trans (batches_nil (by decide))
  have htotals : Ran.Totals (fun _ => ()) m _ ran :=
    (inMemory m.table retry).batchWrite_totals m entries
  obtain ⟨houtcome, hitems⟩ := exists_writeBlocks_failing hthrottling hcut.nonempty hcut.length_le
    (hcut.flatten.symm ▸ hfits)
  constructor
  · obtain ⟨⟨values, hdone⟩, hnone⟩ | ⟨hfailed, hfailing, hblocks⟩ := houtcome
    · rw [hnothing] at hnone
      rw [if_neg (by omega)]
      exact (htotals.done_iff ()).mpr ⟨values, Action.all_done_iff.mp hdone, rfl⟩
    · rw [ne_eq, hnothing] at hblocks
      rw [if_pos ⟨hfailing, Nat.pos_of_ne_zero hblocks⟩]
      exact (htotals.failed_iff _).mpr (Action.all_failed_iff.mp hfailed)
  · have hdropped : entries.drop (25 * min m.failing ((entries.length + 24) / 25)) =
        entries.drop (25 * m.failing) := by
      rcases Nat.le_total m.failing ((entries.length + 24) / 25) with hle | hle
      · rw [Nat.min_eq_left hle]
      · rw [Nat.min_eq_right hle, List.drop_eq_nil_of_le (by omega),
          List.drop_eq_nil_of_le (by omega)]
    rw [htotals.store.trans Action.all_store.symm, hdropped]
    refine hitems.trans ?_
    rw [drop_batches (by decide), (cut_batches (by decide) _).flatten, ← List.map_drop,
      List.foldl_map]
    simp only [WriteEntry.apply_reduce]
    rfl

/-- How a gateway goes about the parts of batches and the segments of scans where nothing pauses. -/
structure TakesTurns {σ : Type} (g : Gateway σ) (s : σ) : Prop where
  writes : ∀ entries, ∃ blocks, Cut 25 (entries.map (WriteEntry.reduce g.table)) blocks ∧
    Ran.Totals (fun _ => ()) s (Action.inTurn (blocks.map g.writeOne) s) (g.batchWrite entries s)
  gets : ∀ keys, ∃ blocks, Cut 100 (keys.map g.table.keyOf) blocks ∧
    Ran.Totals List.flatten s (Action.inTurn (blocks.map g.getOne) s) (g.batchGet keys s)
  rejected : ∀ {segments options start error}, g.scanReads segments options start = .error error →
    g.parallelScan segments options start s = ⟨.failed error, s, []⟩
  scans : ∀ {segments options start reads}, g.scanReads segments options start = .ok reads →
    reads.map (fun read => (read.scope, read.start)) =
        (segmentStarts segments start).map (fun first => (.segment first.1 segments, first.2)) ∧
      (reads.map (·.scope.segmentNumber)).Pairwise (· < ·) ∧
      let runs := Action.inTurn (reads.map (g.readFrom (some none))) s
      let ran := g.parallelScan segments options start s
      Ran.Totals (fun _ => ()) s runs ran ∧
        deliveries ran.events = runs.flatMap fun run => deliveries run.events
  unpaused : ∀ schedule,
    (∀ entries, g.writeTogether ⟨false, false⟩ schedule entries s = g.batchWrite entries s) ∧
      (∀ keys, g.getTogether ⟨false, false⟩ schedule keys s = g.batchGet keys s) ∧
      ∀ segments options start, g.scanTogether ⟨false, false⟩ schedule segments options start s =
        g.parallelScan segments options start s

theorem takesTurns {σ : Type} (g : Gateway σ) (s : σ) : g.TakesTurns s where
  writes entries := ⟨_, cut_batches (by decide) _, g.batchWrite_totals s entries⟩
  gets keys := ⟨_, cut_batches (by decide) _, g.batchGet_totals s keys⟩
  rejected h := by
    rw [parallelScan, h]
    rfl
  scans {segments options start reads} h := by
    have hstarts := scanReads_starts h
    have hnumbers : reads.map (·.scope.segmentNumber) =
        (segmentStarts segments start).map Prod.fst := by
      have := congrArg (List.map fun first : Scope × Option Item => first.1.segmentNumber) hstarts
      simpa [Function.comp_def, Scope.segmentNumber] using this
    have htotals := g.parallelScan_totals s h
    exact ⟨hstarts, hnumbers ▸ pairwise_segmentStarts segments start, htotals, htotals.pages⟩
  unpaused schedule :=
    ⟨fun entries => writeTogether_unpaused schedule entries s,
      fun keys => getTogether_unpaused schedule keys s,
      fun segments options start => scanTogether_unpaused schedule segments options start s⟩

/-- A run of several parts at the same time. Each of them goes on as it would on its own, whatever
becomes of the others, and the store answers the requests of them all in turns. -/
structure KeepsApart {σ ι α β : Type} (g : Gateway σ) (s : σ) (inputs : List ι)
    (action : ι → Gateway Script → Action Script α) (gather : List α → β) (ran : Ran σ β)
    (parts : List (Part α)) (whole : List Happening) : Prop where
  alone : List.Forall₂ (fun input part => ∃ u, g.Reached s whole u ∧ part.Alone g u (action input))
    inputs parts
  merges : Merges (parts.map Part.own) whole
  follows : g.Follows s whole ran.store
  done_iff : ∀ value, ran.outcome = .done value ↔
    ∃ values, parts.map Part.outcome = values.map .done ∧ gather values = value
  failed_iff : ∀ error, ran.outcome = .failed error ↔
    ∃ before first after, parts = before ++ first :: after ∧
      (∀ earlier ∈ before, ∃ value, earlier.outcome = .done value) ∧ first.outcome = .failed error
  pages : Merges (parts.map fun part => deliveries (part.own.map Happening.event))
    (deliveries ran.events)

theorem Parted.keepsApart {σ ι α β : Type} {g : Gateway σ} {s : σ} {inputs : List ι}
    {start : ι → σ → Task α} {action : ι → Gateway Script → Action Script α} {gather : List α → β}
    {ran : Ran σ β} {parts : List (Part α)} {whole : List Happening}
    (h : g.Parted s (inputs.map start) gather ran parts whole)
    (halone : ∀ input u part, Part.Of (start input u) part → part.Alone g u (action input)) :
    g.KeepsApart s inputs action gather ran parts whole where
  alone := (List.forall₂_map_left_iff.mp h.starts).imp fun input part ⟨u, hu, hpart⟩ =>
    ⟨u, hu.reached, halone input u part hpart⟩
  merges := h.merges
  follows := h.follows
  done_iff value := by
    rw [h.outcome, Outcome.map_eq_done_iff]
    simp only [Outcome.all_eq_done_iff]
  failed_iff error := by rw [h.outcome, Outcome.map_eq_failed_iff, Outcome.all_map_eq_failed_iff]
  pages := h.pages

/-- How a gateway goes about the parts of batches and the segments of scans wherever they pause, and
in whatever order they go on. -/
structure GoesOn {σ : Type} (g : Gateway σ) (pauses : Pauses) (schedule : List Nat) (s : σ) :
    Prop where
  writes : ∀ entries, ∃ blocks parts whole,
    Cut 25 (entries.map (WriteEntry.reduce g.table)) blocks ∧
      g.KeepsApart s blocks (fun block g => g.writeOne block) (fun _ => ())
        (g.writeTogether pauses schedule entries s) parts whole
  gets : ∀ keys, ∃ blocks parts whole, Cut 100 (keys.map g.table.keyOf) blocks ∧
    g.KeepsApart s blocks (fun block g => g.getOne block) List.flatten
      (g.getTogether pauses schedule keys s) parts whole
  rejected : ∀ {segments options start error}, g.scanReads segments options start = .error error →
    g.scanTogether pauses schedule segments options start s = ⟨.failed error, s, []⟩
  scans : ∀ {segments options start reads}, g.scanReads segments options start = .ok reads →
    ∃ parts whole, g.KeepsApart s reads (fun read g => g.readFrom (some none) read) (fun _ => ())
      (g.scanTogether pauses schedule segments options start s) parts whole

theorem goesOn {σ : Type} (g : Gateway σ) (pauses : Pauses) (schedule : List Nat) (s : σ) :
    g.GoesOn pauses schedule s where
  writes entries := by
    obtain ⟨parts, whole, h⟩ := g.exists_parted_writeTogether s pauses schedule entries
    exact ⟨_, parts, whole, cut_batches (by decide) _,
      h.keepsApart fun _ _ _ hpart => alone_writeOne hpart⟩
  gets keys := by
    obtain ⟨parts, whole, h⟩ := g.exists_parted_getTogether s pauses schedule keys
    exact ⟨_, parts, whole, cut_batches (by decide) _,
      h.keepsApart fun _ _ _ hpart => alone_getOne hpart⟩
  rejected h := g.scanTogether_of_error s pauses schedule h
  scans hreads := by
    obtain ⟨parts, whole, h⟩ := g.exists_parted_scanTogether s pauses schedule hreads
    exact ⟨parts, whole, h.keepsApart fun _ _ _ hpart => alone_readFrom hpart⟩

end Gateway

end KeyedTable
