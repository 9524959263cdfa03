import KeyedTable.Proofs.SortedMap.Overwriting
import KeyedTable.Store.Memory

namespace KeyedTable

namespace Memory

variable {m : Memory}

def Keyed (m : Memory) : Prop := ∀ e ∈ m.items.entries, e.1 = m.table.primaryOrder e.2

theorem keyed_new (table : Table) (pageSize : Option Nat) (items : List Item) :
    (new table pageSize items).Keyed := by
  intro e he
  obtain ⟨item, -, rfl⟩ := List.mem_map.mp (Entries.mem_ofList he)
  rfl

theorem Keyed.congr {n : Memory} (h : m.Keyed) (htable : n.table = m.table)
    (hitems : n.items = m.items) : n.Keyed := by
  intro e he
  rw [htable]
  exact h e (hitems ▸ he)

theorem Keyed.store (h : m.Keyed) (item : Item) : (m.store item).Keyed := by
  intro e he
  cases Entries.mem_insert he with
  | inl he => rw [he]; rfl
  | inr he => exact h e he

theorem Keyed.erase (h : m.Keyed) (key : OrderKey) :
    Keyed { m with items := m.items.erase key } :=
  fun e he => h e (List.mem_filter.mp he).1

theorem Keyed.put (h : m.Keyed) (put : Put) : (m.put put).2.Keyed := by
  unfold Memory.put
  split
  · exact h
  · exact h.store put.item
  · split
    · exact h.store put.item
    · exact h

theorem Keyed.applyEntries (h : m.Keyed) (entries : List WriteEntry) :
    (m.applyEntries entries).2.Keyed := by
  induction entries generalizing m with
  | nil => exact h
  | cons entry rest ih =>
    cases entry with
    | put item => exact ih (h.store item)
    | delete key =>
      rw [Memory.applyEntries]
      split
      · exact h
      · exact ih (h.erase (m.table.primaryOrder key))

theorem Keyed.serve (h : m.Keyed) (request : Request) : (m.serve request).2.Keyed := by
  cases request with
  | get table key => exact h
  | put put => exact h.put put
  | writeBatch table entries =>
    have hafter : Keyed { m with halving := m.halving - 1 } := h.congr rfl rfl
    exact hafter.applyEntries _
  | getBatch table keys => exact h.congr rfl rfl
  | read read => exact h

theorem Keyed.interrupt {error : Error} {after : Memory} (h : m.Keyed)
    (hafter : m.interrupt = some (error, after)) : after.Keyed := by
  unfold Memory.interrupt at hafter
  split at hafter
  · cases hafter
    exact h.congr rfl rfl
  · split at hafter
    · cases hafter
      exact h.congr rfl rfl
    · cases hafter

theorem Keyed.answer (h : m.Keyed) (request : Request) : (m.answer request).2.Keyed := by
  unfold Memory.answer
  split
  · exact h
  · split
    next hafter => exact h.interrupt hafter
    next =>
      have hcount : (m.count request).Keyed := h.congr rfl rfl
      exact hcount.serve request

theorem Keyed.inject (h : m.Keyed) (injection : Injection) : (m.inject injection).Keyed :=
  h.congr rfl rfl

end Memory

end KeyedTable
