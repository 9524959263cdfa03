import KeyedTable.Proofs.Batch.Cutting
import KeyedTable.Proofs.Memory.Throttled

namespace KeyedTable

namespace Gateway

variable {m : Memory} {retry : RetryPolicy} {keys : List Item}

def GetsBatch (table : String) (request : Request) : Prop :=
  ∃ batch, request = .getBatch table batch ∧ 1 ≤ batch.length ∧ batch.length ≤ getBatchSize

structure Gets (retry : RetryPolicy) (m : Memory) (events : List Event) (after : Memory) :
    Prop extends Served retry (GetsBatch m.table.name) m events after where
  items : after.items = m.items

theorem gets_nothing (h : m.Bearable retry) {events : List Event}
    (hevents : ∀ request refusal, Event.asked request refusal ∉ events) :
    Gets retry m events m :=
  ⟨.nothing h hevents, rfl⟩

theorem Gets.append {between after : Memory} {before events : List Event}
    (h : Gets retry m before between) (hrest : Gets retry between events after) :
    Gets retry m (before ++ events) after where
  toServed := h.toServed.append (h.table ▸ hrest.toServed)
  items := hrest.items.trans h.items

theorem Gets.lookup {events : List Event} {after : Memory} (h : Gets retry m events after) :
    after.lookup = m.lookup := by
  funext key
  rw [Memory.lookup, Memory.lookup, h.table, h.items]

theorem exists_submit_getBatch (h : m.Bearable retry) (hne : keys ≠ [])
    (hsize : keys.length ≤ getBatchSize) :
    ∃ n after events, 0 < n ∧
      (inMemory m.table retry).submit (.getBatch m.table.name keys) m =
        ⟨.done ⟨(keys.take n).filterMap m.lookup, keys.drop n⟩, after, events⟩ ∧
      Gets retry m events after := by
  have hcheck : m.check (.getBatch m.table.name keys) = .ok () := by
    have hnot : ¬ getBatchSize < keys.length := Nat.not_lt.mpr hsize
    simp [Memory.check, Request.table, Memory.checkShape, hne, hnot]
  have hkind : GetsBatch m.table.name (.getBatch m.table.name keys) :=
    ⟨keys, rfl, List.length_pos_iff.mpr hne, hsize⟩
  exact ⟨_, _, _, Memory.processed_pos _ (List.length_pos_iff.mpr hne),
    submit_of_serve h hcheck rfl, .submitted h hkind rfl rfl rfl, rfl⟩

theorem exists_getRounds {rounds : Nat} (h : m.Bearable retry) (hsize : keys.length ≤ getBatchSize)
    (hrounds : keys.length ≤ rounds) :
    ∃ after events,
      (inMemory m.table retry).getRounds rounds keys m =
        ⟨.done (keys.filterMap m.lookup), after, events⟩ ∧ Gets retry m events after := by
  induction rounds generalizing m keys with
  | zero =>
    obtain rfl := List.eq_nil_of_length_eq_zero (Nat.le_zero.mp hrounds)
    exact ⟨m, [], rfl, gets_nothing h fun _ _ => List.not_mem_nil⟩
  | succ rounds ih =>
    cases keys with
    | nil => exact ⟨m, [], rfl, gets_nothing h fun _ _ => List.not_mem_nil⟩
    | cons key keys =>
      -- Every batch takes at least one key along, so one round less is enough for the rest.
      obtain ⟨n, between, before, hn, hsubmit, hfirst⟩ :=
        exists_submit_getBatch h (List.cons_ne_nil key keys) hsize
      have hlength : ((key :: keys).drop n).length ≤ keys.length := by
        rw [List.length_drop, List.length_cons]
        omega
      rw [List.length_cons] at hsize hrounds
      obtain ⟨after, events, hran, hrest⟩ :=
        ih hfirst.bearable (Nat.le_trans hlength (by omega)) (Nat.le_trans hlength (by omega))
      rw [hfirst.table, hfirst.lookup] at hran
      have hgathered : ((key :: keys).take n).filterMap m.lookup ++
          ((key :: keys).drop n).filterMap m.lookup = (key :: keys).filterMap m.lookup := by
        rw [← List.filterMap_append, List.take_append_drop]
      have hrest' : ((inMemory m.table retry).getRounds rounds ((key :: keys).drop n) >>=
            fun items => pure (((key :: keys).take n).filterMap m.lookup ++ items)) between =
          ⟨.done ((key :: keys).filterMap m.lookup), after, events ++ []⟩ :=
        Action.bind_of_eq hran (hgathered ▸ rfl)
      refine ⟨after, before ++ events, ?_, hfirst.append hrest⟩
      rw [List.append_nil] at hrest'
      rw [getRounds]
      exact Action.bind_of_eq hsubmit hrest'

theorem exists_getBlocks {blocks : List (List Item)} (h : m.Bearable retry)
    (hsize : ∀ block ∈ blocks, block.length ≤ getBatchSize) :
    ∃ after events,
      Action.all (blocks.map (inMemory m.table retry).getOne) m =
        ⟨.done (blocks.map fun block => block.filterMap m.lookup), after, events⟩ ∧
      Gets retry m events after := by
  induction blocks generalizing m with
  | nil => exact ⟨m, [], rfl, gets_nothing h fun _ _ => List.not_mem_nil⟩
  | cons block blocks ih =>
    obtain ⟨hblock, hblocks⟩ := List.forall_mem_cons.mp hsize
    obtain ⟨between, before, hran, hfirst⟩ :=
      exists_getRounds h hblock (Nat.le_add_left _ m.items.size)
    obtain ⟨after, events, hall, hrest⟩ := ih (m := between) hfirst.bearable hblocks
    refine ⟨after, before ++ events, ?_, hfirst.append hrest⟩
    rw [hfirst.table, hfirst.lookup] at hall
    exact Action.all_cons_of_eq hran hall

theorem get_outcome (h : m.Bearable retry) (key : Item) :
    ((inMemory m.table retry).get key m).outcome = .done (m.lookup (m.table.keyOf key)) := by
  have hcheck : m.check (.get m.table.name (m.table.keyOf key)) = .ok () := by
    simp [Memory.check, Request.table, Memory.checkShape]
  have hran : (inMemory m.table retry).get key m = ⟨.done (m.lookup (m.table.keyOf key)), _, _⟩ :=
    Action.bind_of_eq (submit_of_serve h hcheck rfl) rfl
  rw [hran]

end Gateway

/-- A batch get finds what single gets find, key by key, and changes no item. -/
theorem batchGet_eq_gets {m : Memory} {retry : RetryPolicy} (h : m.Bearable retry)
    (keys : List Item) :
    let g := Gateway.inMemory m.table retry
    let ran := g.batchGet keys m
    (∃ found : Item → Option Item,
      (∀ n : Memory, n.Bearable retry → n.table = m.table → n.items = m.items →
        ∀ key, (g.get key n).outcome = .done (found key)) ∧
      ran.outcome = .done (keys.filterMap found)) ∧
      ran.store.items = m.items ∧
      ∀ request refusal, Event.asked request refusal ∈ ran.events →
        (∃ batch, request = .getBatch m.table.name batch ∧ 1 ≤ batch.length ∧
          batch.length ≤ 100) ∧ ∀ error ∈ refusal, error.isThrottling := by
  intro g ran
  have hcut := cut_batches (show 0 < getBatchSize by decide) (keys.map m.table.keyOf)
  obtain ⟨after, events, hall, hgets⟩ := Gateway.exists_getBlocks h hcut.length_le
  let items := ((batches getBatchSize (keys.map m.table.keyOf)).map
    fun block => block.filterMap m.lookup).flatten
  have hitems : items = keys.filterMap (m.lookup ∘ m.table.keyOf) := by
    unfold items
    rw [← List.filterMap_flatten, hcut.flatten, List.filterMap_map]
  let notice := Notice.gotBatch items.length m.table.name
  have hran : ran = ⟨.done items, after, events ++ [.logged notice]⟩ := Action.bind_of_eq hall rfl
  have hnothing : Gateway.Gets retry after [.logged notice] after :=
    Gateway.gets_nothing hgets.bearable (by simp)
  have hnoted := hgets.append hnothing
  rw [hran, hitems]
  refine ⟨⟨m.lookup ∘ m.table.keyOf, fun n hn htable hitems key => ?_, rfl⟩, hnoted.items,
    hnoted.asked⟩
  have hlookup : n.lookup = m.lookup := by
    funext key
    rw [Memory.lookup, Memory.lookup, htable, hitems]
  have hget := Gateway.get_outcome hn key
  rwa [htable, hlookup] at hget

theorem batchGet_eq_gets_in_order :
    let table : Table := ⟨"orders", ⟨"user", none⟩, .empty⟩
    let item (user : String) : Item := SortedMap.empty.insert "user" (.string user)
    let m : Memory :=
      { Memory.new table none [item "u", item "v"] with throttling := 2, halving := 1 }
    let keys : List Item := [item "v", item "w", item "u", item "v"]
    let ran := (Gateway.inMemory table .standard).batchGet keys m
    m.Bearable .standard ∧ ran.outcome = .done [item "v", item "u", item "v"] ∧
      ran.store.items = m.items := by
  intro table item m keys ran
  have hbearable : m.Bearable .standard := ⟨rfl, by decide⟩
  obtain ⟨⟨found, hfound, hdone⟩, hitems, -⟩ := batchGet_eq_gets hbearable keys
  have hkept : ∀ user ∈ ["u", "v"], found (item user) = some (item user) := by
    intro user huser
    have hget : ((Gateway.inMemory table .standard).get (item user) m).outcome =
        .done (some (item user)) := by
      revert user
      decide
    exact Outcome.done.inj ((hfound m hbearable rfl rfl (item user)).symm.trans hget)
  have habsent : found (item "w") = none := by
    have hget : ((Gateway.inMemory table .standard).get (item "w") m).outcome = .done none := by
      decide
    exact Outcome.done.inj ((hfound m hbearable rfl rfl (item "w")).symm.trans hget)
  refine ⟨hbearable, hdone.trans ?_, hitems⟩
  simp [keys, hkept, habsent]

end KeyedTable
