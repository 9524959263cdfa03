import KeyedTable.Proofs.Memory.Paging
import KeyedTable.Store.Memory

namespace KeyedTable

theorem exists_of_bind_ok {α β : Type} {first : Except Error α} {next : α → Except Error β}
    {result : β} (h : (first >>= next) = .ok result) :
    ∃ value, first = .ok value ∧ next value = .ok result := by
  cases first with
  | error error => cases h
  | ok value => exact ⟨value, rfl, h⟩

namespace Memory

variable {m : Memory}

theorem answer_of_ok {request : Request} {reply : request.Reply}
    (h : (m.answer request).1 = .ok reply) :
    m.answer request = (m.count request).serve request := by
  unfold answer at h ⊢
  split at h
  · cases h
  · split at h
    · cases h
    · rfl

theorem length_unwritten_lt {entries unprocessed : List WriteEntry} (hne : entries ≠ [])
    (h : (m.writeBatch entries).1 = .ok unprocessed) : unprocessed.length < entries.length := by
  have hpos := List.length_pos_iff.mpr hne
  have hprocessed := m.processed_pos hpos
  simp only [writeBatch] at h
  cases hresult : (applyEntries { m with halving := m.halving - 1 }
      (entries.take (m.processed entries.length))).1 with
  | error error =>
    rw [hresult] at h
    cases h
  | ok _ =>
    rw [hresult] at h
    cases h
    rw [List.length_drop]
    omega

theorem length_unfound_lt {keys : List Item} {found : Found} (hne : keys ≠ [])
    (h : (m.getBatch keys).1 = .ok found) : found.unprocessed.length < keys.length := by
  have hpos := List.length_pos_iff.mpr hne
  have hprocessed := m.processed_pos hpos
  cases h
  rw [List.length_drop]
  omega

theorem length_candidates_le {read : Read} {items : List Item}
    (h : m.candidates read = .ok items) : items.length ≤ m.items.size := by
  unfold candidates at h
  split at h
  next keyCondition forward _ =>
    obtain ⟨condition, -, h⟩ := exists_of_bind_ok h
    obtain ⟨visible, hvisible, h⟩ := exists_of_bind_ok h
    have hlength : items.length = (visible.filter condition.holds).length := by
      cases h
      split
      · rfl
      · exact List.length_reverse
    rw [hlength]
    exact Nat.le_trans (List.length_filter_le _ _) (length_visible_le hvisible)
  next number total _ =>
    obtain ⟨visible, hvisible, h⟩ := exists_of_bind_ok h
    cases h
    exact Nat.le_trans (List.length_filter_le _ _) (length_visible_le hvisible)

def ahead (m : Memory) (read : Read) : Nat :=
  match m.candidates read with
  | .ok items => (items.filter (m.isBeyond read.index read.scope.isForward read.start)).length
  | .error _ => 0

theorem ahead_of_candidates {read : Read} {items : List Item} (h : m.candidates read = .ok items) :
    m.ahead read =
      (items.filter (m.isBeyond read.index read.scope.isForward read.start)).length := by
  simp only [ahead, h]

theorem ahead_le (m : Memory) (read : Read) : m.ahead read ≤ m.items.size := by
  cases h : m.candidates read with
  | error error => simp only [ahead, h, Nat.zero_le]
  | ok items =>
    rw [ahead_of_candidates h]
    exact Nat.le_trans (List.length_filter_le _ _) (length_candidates_le h)

theorem exists_last {items : List Item} {index : Option String} {forward : Bool}
    {start : Option Item} {limit : Option Nat} {test : Option Condition} {key : Item}
    (h : (m.page items index forward start limit test).lastKey = some key) :
    ∃ last ∈ items.filter (m.isBeyond index forward start),
      key = m.table.cursor index last := by
  cases hn : m.budget limit with
  | none => simp [page, hn] at h
  | some n =>
    simp only [page, hn] at h
    split at h
    · obtain ⟨last, hlast, hkey⟩ := Option.map_eq_some_iff.mp h
      exact ⟨last, List.mem_of_mem_take (List.mem_of_getLast? hlast), hkey.symm⟩
    · cases h

theorem ahead_lt {read : Read} {page : Page} {key : Item} (h : m.read read = .ok page)
    (hkey : page.lastKey = some key) (limit : Option Nat) :
    m.ahead { read with start := some key, limit } < m.ahead read := by
  obtain ⟨test, -, h⟩ := exists_of_bind_ok h
  obtain ⟨items, hitems, h⟩ := exists_of_bind_ok h
  cases h
  obtain ⟨last, hlast, rfl⟩ := exists_last hkey
  have hlater : m.candidates { read with start := some (m.table.cursor read.index last), limit } =
      .ok items := hitems
  rw [ahead_of_candidates hitems, ahead_of_candidates hlater, isBeyond_cursor]
  -- What is beyond the last item is beyond the start, and the last item is not beyond itself.
  have hbeyond : ∀ item, m.isBeyond read.index read.scope.isForward (some last) item →
      m.isBeyond read.index read.scope.isForward read.start item := by
    intro item hitem
    cases hstart : read.start with
    | none => rfl
    | some start =>
      rw [hstart] at hlast
      exact (isBeyond_some_iff start item).mpr <|
        ((isBeyond_some_iff start last).mp (List.mem_filter.mp hlast).2).trans
          ((isBeyond_some_iff last item).mp hitem)
  have hsame : items.filter (m.isBeyond read.index read.scope.isForward (some last)) =
      (items.filter (m.isBeyond read.index read.scope.isForward read.start)).filter
        (m.isBeyond read.index read.scope.isForward (some last)) := by
    rw [List.filter_filter]
    refine List.filter_congr fun item _ => ?_
    rw [Bool.eq_iff_iff, Bool.and_eq_true]
    exact ⟨fun h => ⟨h, hbeyond item h⟩, And.left⟩
  rw [hsame]
  refine List.length_filter_lt_length_iff_exists.mpr ⟨last, hlast, fun h => ?_⟩
  exact Table.before_irrefl _ last ((isBeyond_some_iff last last).mp h)

end Memory

end KeyedTable
