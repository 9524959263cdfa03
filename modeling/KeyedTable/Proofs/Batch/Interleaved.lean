import KeyedTable.Proofs.Batch.Writing

/-! Batches that are written at the same time, each of them sent again until nothing is left of it.
Whichever of them comes next at any time, they come to an end, and the items are those that the
entries leave when they are applied one by one. -/

namespace KeyedTable

structure Writers where
  memory : Memory
  pending : List (List WriteEntry)

namespace Writers

/-- One of the batches is sent and keeps what is given back. Before that it may be changed how many
of the next batches are left half unprocessed. -/
inductive Step (halving : Option Nat) : Writers → Writers → Prop
  | sent {m after before entries unprocessed later} : entries ≠ [] →
      (m.inject ⟨none, none, halving⟩).answer (.writeBatch m.table.name entries) =
        (.ok unprocessed, after) →
      Step halving ⟨m, before ++ entries :: later⟩ ⟨after, before ++ unprocessed :: later⟩

theorem Step.of_reply {halving : Option Nat} {m : Memory} {before : List (List WriteEntry)}
    {entries unprocessed : List WriteEntry} {later : List (List WriteEntry)} (hne : entries ≠ [])
    (h : ((m.inject ⟨none, none, halving⟩).answer (.writeBatch m.table.name entries)).1 =
      .ok unprocessed) :
    Step halving ⟨m, before ++ entries :: later⟩
      ⟨((m.inject ⟨none, none, halving⟩).answer (.writeBatch m.table.name entries)).2,
        before ++ unprocessed :: later⟩ :=
  .sent hne (Prod.ext h rfl)

inductive Steps : Nat → Writers → Writers → Prop
  | none {w} : Steps 0 w w
  | step {n u v w halving} : Steps n u v → Step halving v w → Steps (n + 1) u w

/-- Wherever the batches stand, applying what is left of them gives the result. -/
structure Underway (table : Table) (result : SortedMap OrderKey Item) (w : Writers) : Prop where
  table_eq : w.memory.table = table
  calm : w.memory.Calm
  sized : ∀ entries ∈ w.pending, entries.length ≤ writeBatchSize
  fits : ∀ entries ∈ w.pending, ∀ entry ∈ entries, entry.Fits table
  apart : w.pending.Pairwise (WriteEntry.Apart table)
  items : w.pending.flatten.foldl (WriteEntry.apply table) w.memory.items = result

variable {table : Table} {result : SortedMap OrderKey Item} {m : Memory}
  {entries : List WriteEntry}

theorem exists_answer_writeBatch (hcalm : m.Calm) (hne : entries ≠ [])
    (hsize : entries.length ≤ writeBatchSize) (hfits : ∀ entry ∈ entries, entry.Fits m.table) :
    ∃ n after, 0 < n ∧
      m.answer (.writeBatch m.table.name entries) = (.ok (entries.drop n), after) ∧
      after.table = m.table ∧ after.Calm ∧
      after.items = (entries.take n).foldl (WriteEntry.apply m.table) m.items := by
  have hanswer := Memory.answer_served (Memory.check_writeBatch hne hsize) hcalm.failing
    hcalm.throttling
  have hserve := Memory.serve_writeBatch (m := m.count (.writeBatch m.table.name entries)) hfits
    m.table.name
  exact ⟨_, _, m.processed_pos (List.length_pos_iff.mpr hne), hanswer.trans hserve, rfl,
    ⟨hcalm.failing, hcalm.throttling⟩, rfl⟩

theorem Underway.exists_step {before later : List (List WriteEntry)}
    (h : Underway table result ⟨m, before ++ entries :: later⟩) (hne : entries ≠ [])
    (halving : Option Nat) :
    ∃ n after, 0 < n ∧
      (m.inject ⟨none, none, halving⟩).answer (.writeBatch m.table.name entries) =
        (.ok (entries.drop n), after) ∧
      Underway table result ⟨after, before ++ entries.drop n :: later⟩ := by
  have hmem : entries ∈ before ++ entries :: later :=
    List.mem_append_right _ List.mem_cons_self
  have htable : (m.inject ⟨none, none, halving⟩).table = table := h.table_eq
  obtain ⟨n, after, hn, hanswer, hafter, hcalm, hitems⟩ :=
    exists_answer_writeBatch (m := m.inject ⟨none, none, halving⟩)
      ⟨h.calm.failing, h.calm.throttling⟩ hne (h.sized _ hmem)
      (fun entry hentry => htable ▸ h.fits _ hmem entry hentry)
  rw [htable] at hafter hitems
  have hitems : after.items = (entries.take n).foldl (WriteEntry.apply table) m.items := hitems
  have hothers : ∀ {P : List WriteEntry → Prop}, (∀ xs ∈ before ++ entries :: later, P xs) →
      P (entries.drop n) → ∀ xs ∈ before ++ entries.drop n :: later, P xs := by
    intro P hall hdrop
    rw [List.forall_mem_append, List.forall_mem_cons] at hall ⊢
    exact ⟨hall.1, hdrop, hall.2.2⟩
  obtain ⟨hbefore, hrest, hcross⟩ := List.pairwise_append.mp h.apart
  obtain ⟨hentries, hlater⟩ := List.pairwise_cons.mp hrest
  refine ⟨n, after, hn, hanswer, hafter, hcalm, ?_, ?_, ?_, ?_⟩
  · refine hothers h.sized ?_
    rw [List.length_drop]
    exact Nat.le_trans (Nat.sub_le ..) (h.sized _ hmem)
  · exact hothers h.fits fun entry hentry => h.fits _ hmem entry (List.mem_of_mem_drop hentry)
  · refine List.pairwise_append.mpr ⟨hbefore, List.pairwise_cons.mpr ⟨?_, hlater⟩, ?_⟩
    · exact fun ys hys x hx => hentries ys hys x (List.mem_of_mem_drop hx)
    · intro xs hxs ys hys x hx y hy
      cases List.mem_cons.mp hys with
      | inl heq =>
        subst heq
        exact hcross xs hxs entries List.mem_cons_self x hx y (List.mem_of_mem_drop hy)
      | inr hys => exact hcross xs hxs ys (List.mem_cons_of_mem _ hys) x hx y hy
  · -- What is taken along could have been applied before the batches that stand before it.
    have hapart : WriteEntry.Apart table before.flatten (entries.take n) := by
      intro x hx y hy
      obtain ⟨xs, hxs, hx⟩ := List.mem_flatten.mp hx
      exact hcross xs hxs entries List.mem_cons_self x hx y (List.mem_of_mem_take hy)
    have hresult := h.items
    rw [List.flatten_append, List.flatten_cons, ← List.take_append_drop n entries] at hresult
    simp only [List.foldl_append] at hresult
    rw [WriteEntry.foldl_apply_comm hapart] at hresult
    simp only [List.flatten_append, List.flatten_cons, List.foldl_append, hitems]
    exact hresult

def left (w : Writers) : Nat := w.pending.flatten.length

theorem Underway.step {w next : Writers} {halving : Option Nat} (h : Underway table result w)
    (hstep : Step halving w next) : Underway table result next ∧ next.left < w.left := by
  cases hstep with
  | @sent m after before entries unprocessed later hne hanswer =>
    obtain ⟨n, after', hn, hanswer', hnext⟩ := h.exists_step hne halving
    obtain ⟨hsame, rfl⟩ := Prod.mk.inj (hanswer.symm.trans hanswer')
    obtain rfl := Except.ok.inj hsame
    refine ⟨hnext, ?_⟩
    have := List.length_pos_iff.mpr hne
    simp only [left, List.flatten_append, List.flatten_cons, List.length_append, List.length_drop]
    omega

theorem Underway.steps {u w : Writers} {n : Nat} (h : Underway table result u)
    (hsteps : Steps n u w) : Underway table result w ∧ n + w.left ≤ u.left := by
  induction hsteps with
  | none => exact ⟨h, Nat.le_of_eq (Nat.zero_add _)⟩
  | step _ hstep ih =>
    obtain ⟨hv, hleft⟩ := ih h
    obtain ⟨hw, hless⟩ := hv.step hstep
    exact ⟨hw, by omega⟩

theorem not_step {w : Writers} (h : ∀ pending ∈ w.pending, pending = []) (halving : Option Nat)
    (next : Writers) : ¬ Step halving w next := by
  intro hstep
  cases hstep with
  | sent hne _ => exact hne (h _ (List.mem_append_right _ List.mem_cons_self))

theorem Steps.trans {u v w : Writers} {n k : Nat} (h : Steps n u v) (hrest : Steps k v w) :
    Steps (n + k) u w := by
  induction hrest with
  | none => exact h
  | step _ hstep ih => exact .step (ih h) hstep

theorem Underway.exists_writeRounds (retry : RetryPolicy) {rounds : Nat}
    {before later : List (List WriteEntry)}
    (h : Underway table result ⟨m, before ++ entries :: later⟩)
    (hrounds : entries.length ≤ rounds) :
    ∃ n after events,
      (Gateway.inMemory table retry).writeRounds rounds entries m = ⟨.done (), after, events⟩ ∧
      Steps n ⟨m, before ++ entries :: later⟩ ⟨after, before ++ [] :: later⟩ := by
  induction rounds generalizing m entries with
  | zero =>
    obtain rfl := List.eq_nil_of_length_eq_zero (Nat.le_zero.mp hrounds)
    exact ⟨0, m, [], rfl, .none⟩
  | succ rounds ih =>
    cases entries with
    | nil => exact ⟨0, m, [], rfl, .none⟩
    | cons entry entries =>
      obtain ⟨n, between, hn, hanswer, hnext⟩ := h.exists_step (List.cons_ne_nil entry entries) none
      have hfewer : ((entry :: entries).drop n).length ≤ rounds := by
        rw [List.length_drop]
        omega
      obtain ⟨count, after, events, hran, hsteps⟩ := ih hnext hfewer
      have hstep : Step none ⟨m, before ++ (entry :: entries) :: later⟩
          ⟨between, before ++ (entry :: entries).drop n :: later⟩ :=
        .sent (List.cons_ne_nil entry entries) hanswer
      have hasked : Action.ask Store.memory (.writeBatch table.name (entry :: entries)) m =
          ⟨.done ((entry :: entries).drop n), between,
            [.asked (.writeBatch table.name (entry :: entries)) none]⟩ := by
        have hanswer : Store.memory.answer (.writeBatch m.table.name (entry :: entries)) m =
          (.ok ((entry :: entries).drop n), between) := hanswer
        rw [Action.ask_apply, ← h.table_eq, hanswer]
        rfl
      have hsubmit := RetryPolicy.run_of_done retry (congrArg Ran.outcome hasked)
      exact ⟨1 + count, after, _, Action.bind_of_eq (hsubmit.trans hasked) hran,
        (Steps.step .none hstep).trans hsteps⟩

theorem Underway.exists_all (retry : RetryPolicy) {before blocks : List (List WriteEntry)}
    (h : Underway table result ⟨m, before ++ blocks⟩) :
    ∃ n values after events,
      Action.all (blocks.map (Gateway.inMemory table retry).writeOne) m =
        ⟨.done values, after, events⟩ ∧
      Steps n ⟨m, before ++ blocks⟩ ⟨after, before ++ blocks.map fun _ => []⟩ := by
  induction blocks generalizing m before with
  | nil => exact ⟨0, [], m, [], rfl, .none⟩
  | cons block blocks ih =>
    obtain ⟨n, between, first, hran, hsteps⟩ :=
      h.exists_writeRounds retry (Nat.le_add_left _ m.items.size)
    have hnext := (h.steps hsteps).1
    rw [List.append_cons] at hnext
    obtain ⟨count, values, after, events, hall, hrest⟩ := ih hnext
    rw [List.append_assoc, List.append_assoc] at hrest
    exact ⟨n + count, () :: values, after, first ++ events, Action.all_cons_of_eq hran hall,
      hsteps.trans hrest⟩

theorem underway_start {m : Memory} (hcalm : m.Calm) (hkeys : m.table.primaryKey.names.Nodup)
    {entries : List WriteEntry}
    (hdeletes : ∀ key, .delete key ∈ entries → m.table.primaryKey.coveredBy key)
    (hapart : (batches writeBatchSize entries).Pairwise (WriteEntry.Apart m.table)) :
    Underway m.table (entries.foldl (WriteEntry.apply m.table) m.items)
      ⟨m, batches writeBatchSize (entries.map (WriteEntry.reduce m.table))⟩ where
  table_eq := rfl
  calm := hcalm
  sized := (cut_batches (by decide) _).length_le
  fits block hblock entry hentry := by
    have hmem : entry ∈ entries.map (WriteEntry.reduce m.table) := by
      have hcut := cut_batches (show 0 < writeBatchSize by decide)
        (entries.map (WriteEntry.reduce m.table))
      rw [← hcut.flatten]
      exact List.mem_flatten.mpr ⟨block, hblock, hentry⟩
    exact WriteEntry.fits_of_mem_reduced hkeys hdeletes entry hmem
  apart := by
    rw [batches_map, List.pairwise_map]
    refine hapart.imp fun {xs ys} h x hx y hy => ?_
    obtain ⟨x', hx', rfl⟩ := List.mem_map.mp hx
    obtain ⟨y', hy', rfl⟩ := List.mem_map.mp hy
    simpa using h x' hx' y' hy'
  items := by
    rw [(cut_batches (show 0 < writeBatchSize by decide) _).flatten, List.foldl_map]
    simp only [WriteEntry.apply_reduce]

end Writers

/-- The gateway writes the batches one after the other, which is one way to go about it. -/
theorem batchWrite_steps {m : Memory} (hcalm : m.Calm) (retry : RetryPolicy)
    (hkeys : m.table.primaryKey.names.Nodup) {entries : List WriteEntry}
    (hdeletes : ∀ key, .delete key ∈ entries → m.table.primaryKey.coveredBy key)
    (hapart : (batches writeBatchSize entries).Pairwise (WriteEntry.Apart m.table)) :
    ∃ n w, Writers.Steps n
        ⟨m, batches writeBatchSize (entries.map (WriteEntry.reduce m.table))⟩ w ∧
      (∀ pending ∈ w.pending, pending = []) ∧
      ((Gateway.inMemory m.table retry).batchWrite entries m).store = w.memory := by
  have hunderway : Writers.Underway m.table _
      ⟨m, [] ++ batches writeBatchSize (entries.map (WriteEntry.reduce m.table))⟩ :=
    Writers.underway_start hcalm hkeys hdeletes hapart
  obtain ⟨n, values, after, events, hall, hsteps⟩ := hunderway.exists_all retry
  refine ⟨n, _, hsteps, by simp, ?_⟩
  have hnote : Action.note (.logged (.wroteBatch (entries.map (WriteEntry.reduce m.table)).length
      m.table.name)) after = ⟨.done (), after, _⟩ := rfl
  have hran : (Gateway.inMemory m.table retry).batchWrite entries m = ⟨.done (), after, _⟩ :=
    Action.bind_of_eq hall hnote
  rw [hran]

/-- Batches of which no two change the same item may be written at the same time. No run of them has
more steps than there are entries, a batch that has something left can always be sent, and where no
step is left every entry has been applied as if one after the other. -/
theorem interleaved_writes {m : Memory} (hcalm : m.Calm)
    (hkeys : m.table.primaryKey.names.Nodup) {entries : List WriteEntry}
    (hdeletes : ∀ key, .delete key ∈ entries → m.table.primaryKey.coveredBy key)
    (hapart : (batches writeBatchSize entries).Pairwise (WriteEntry.Apart m.table)) {n : Nat}
    {w : Writers}
    (hsteps : Writers.Steps n
      ⟨m, batches writeBatchSize (entries.map (WriteEntry.reduce m.table))⟩ w) :
    n ≤ entries.length ∧
      (∀ before pending later, w.pending = before ++ pending :: later → pending ≠ [] →
        ∀ halving, ∃ left after, Writers.Step halving w ⟨after, before ++ left :: later⟩) ∧
      ((∀ halving next, ¬ Writers.Step halving w next) ↔ ∀ pending ∈ w.pending, pending = []) ∧
      ((∀ pending ∈ w.pending, pending = []) →
        w.memory.items = entries.foldl (WriteEntry.apply m.table) m.items) := by
  obtain ⟨hunderway, hcount⟩ :=
    (Writers.underway_start hcalm hkeys hdeletes hapart).steps hsteps
  have hprogress : ∀ before pending later, w.pending = before ++ pending :: later →
      pending ≠ [] → ∀ halving, ∃ left after,
        Writers.Step halving w ⟨after, before ++ left :: later⟩ := by
    intro before pending later hpending hne halving
    obtain ⟨memory, pendings⟩ := w
    obtain rfl : pendings = before ++ pending :: later := hpending
    obtain ⟨count, after, -, hanswer, -⟩ := hunderway.exists_step hne halving
    exact ⟨_, after, .sent hne hanswer⟩
  refine ⟨?_, hprogress, ⟨fun hlast pending hmem => ?_, Writers.not_step⟩, fun hempty => ?_⟩
  · have hleft : Writers.left
        ⟨m, batches writeBatchSize (entries.map (WriteEntry.reduce m.table))⟩ =
          entries.length := by
      rw [Writers.left, (cut_batches (show 0 < writeBatchSize by decide) _).flatten,
        List.length_map]
    omega
  · obtain ⟨before, later, hpending⟩ := List.append_of_mem hmem
    apply Classical.byContradiction
    intro hne
    obtain ⟨left, after, hstep⟩ := hprogress before pending later hpending hne none
    exact hlast none _ hstep
  · have hresult := hunderway.items
    rwa [List.flatten_eq_nil_iff.mpr hempty] at hresult

theorem interleaved_writes_of_two :
    let table : Table := ⟨"orders", ⟨"user", none⟩, .empty⟩
    let item (user : String) : Item := SortedMap.empty.insert "user" (.string user)
    let m : Memory := { Memory.new table none [item "x"] with halving := 1 }
    let puts : List WriteEntry := (List.range 25).map fun i => .put (item (toString i))
    let others : List WriteEntry := [.delete (item "x"), .put (item "y")]
    (m.Calm ∧ table.primaryKey.names.Nodup ∧
      (∀ key, .delete key ∈ puts ++ others → table.primaryKey.coveredBy key) ∧
      (batches writeBatchSize (puts ++ others)).Pairwise (WriteEntry.Apart table)) ∧
      ∃ after, Writers.Steps 4
          ⟨m, batches writeBatchSize ((puts ++ others).map (WriteEntry.reduce table))⟩
          ⟨after, [[], []]⟩ ∧
        after.items.get? (table.primaryOrder (item "x")) = none ∧ after.items.size = 26 := by
  intro table item m puts others
  have hcalm : m.Calm := ⟨rfl, rfl⟩
  have hkeys : table.primaryKey.names.Nodup := by decide
  have hdeletes : ∀ key, .delete key ∈ puts ++ others → table.primaryKey.coveredBy key := by
    intro key hkey
    obtain rfl : key = item "x" := by simpa [puts, others] using hkey
    decide
  have hblocks : batches writeBatchSize (puts ++ others) = [puts, others] := by decide
  have hreduced : batches writeBatchSize ((puts ++ others).map (WriteEntry.reduce table)) =
      [puts, others] := by decide
  have hapart : (batches writeBatchSize (puts ++ others)).Pairwise (WriteEntry.Apart table) := by
    rw [hblocks]
    decide
  obtain ⟨after, hsteps⟩ : ∃ after, Writers.Steps 4
      ⟨m, batches writeBatchSize ((puts ++ others).map (WriteEntry.reduce table))⟩
      ⟨after, [[], []]⟩ := by
    rw [hreduced]
    let send (m : Memory) (halving : Option Nat) (entries : List WriteEntry) : Memory :=
      ((m.inject ⟨none, none, halving⟩).answer (.writeBatch m.table.name entries)).2
    let first := send m none others
    let second := send first (some 1) puts
    let third := send second none [.put (item "y")]
    have hfirst := @Writers.Step.of_reply none m [puts] others [.put (item "y")] []
      (by decide) (by decide)
    have hsecond := @Writers.Step.of_reply (some 1) first [] puts (puts.drop 13)
      [[.put (item "y")]] (by decide) (by decide)
    have hthird := @Writers.Step.of_reply none second [puts.drop 13] [.put (item "y")] [] []
      (by decide) (by decide)
    have hfourth := @Writers.Step.of_reply none third [] (puts.drop 13) [] [[]]
      (by decide) (by decide)
    exact ⟨_, .step (.step (.step (.step .none hfirst) hsecond) hthird) hfourth⟩
  obtain ⟨-, -, -, hitems⟩ := interleaved_writes hcalm hkeys hdeletes hapart hsteps
  have hitems : after.items = (puts ++ others).foldl (WriteEntry.apply table) m.items :=
    hitems (by simp)
  refine ⟨⟨hcalm, hkeys, hdeletes, hapart⟩, after, hsteps, ?_, ?_⟩
  · rw [hitems]
    decide
  · rw [hitems]
    decide

end KeyedTable
