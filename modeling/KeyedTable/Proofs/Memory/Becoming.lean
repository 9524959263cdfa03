import KeyedTable.Proofs.Memory.Progress

namespace KeyedTable

namespace Memory

variable {l m n : Memory}

/-- The same table with other items at most. -/
structure Becomes (m n : Memory) : Prop where
  table : n.table = m.table
  pageSize : n.pageSize = m.pageSize
  keyed : n.Keyed

theorem Becomes.refl (h : m.Keyed) : m.Becomes m := ⟨rfl, rfl, h⟩

theorem Becomes.trans (h : l.Becomes m) (h' : m.Becomes n) : l.Becomes n :=
  ⟨h'.table.trans h.table, h'.pageSize.trans h.pageSize, h'.keyed⟩

theorem Becomes.inject (h : m.Becomes n) (injection : Injection) : m.Becomes (n.inject injection) :=
  ⟨h.table, h.pageSize, h.keyed.inject injection⟩

theorem applyEntries_settings (m : Memory) (entries : List WriteEntry) :
    (m.applyEntries entries).2.table = m.table ∧
      (m.applyEntries entries).2.pageSize = m.pageSize := by
  induction entries generalizing m with
  | nil => exact ⟨rfl, rfl⟩
  | cons entry entries ih =>
    cases entry with
    | put item => exact ih (m.store item)
    | delete key =>
      rw [applyEntries]
      split
      · exact ⟨rfl, rfl⟩
      · exact ih { m with items := m.items.erase (m.table.primaryOrder key) }

theorem serve_settings (m : Memory) (request : Request) :
    (m.serve request).2.table = m.table ∧ (m.serve request).2.pageSize = m.pageSize := by
  cases request with
  | get table key => exact ⟨rfl, rfl⟩
  | put put =>
    simp only [serve, Memory.put]
    split
    · exact ⟨rfl, rfl⟩
    · exact ⟨rfl, rfl⟩
    · split
      · exact ⟨rfl, rfl⟩
      · exact ⟨rfl, rfl⟩
  | writeBatch table entries => exact applyEntries_settings { m with halving := m.halving - 1 } _
  | getBatch table keys => exact ⟨rfl, rfl⟩
  | read read => exact ⟨rfl, rfl⟩

theorem interrupt_settings {error : Error} {after : Memory}
    (h : m.interrupt = some (error, after)) :
    after.table = m.table ∧ after.pageSize = m.pageSize ∧ after.items = m.items := by
  unfold interrupt at h
  split at h
  · cases h
    exact ⟨rfl, rfl, rfl⟩
  · split at h
    · cases h
      exact ⟨rfl, rfl, rfl⟩
    · cases h

theorem answer_settings (m : Memory) (request : Request) :
    (m.answer request).2.table = m.table ∧ (m.answer request).2.pageSize = m.pageSize := by
  unfold answer
  split
  · exact ⟨rfl, rfl⟩
  · split
    next hafter =>
      obtain ⟨htable, hpageSize, -⟩ := interrupt_settings hafter
      exact ⟨htable, hpageSize⟩
    next => exact serve_settings (m.count request) request

theorem Becomes.answer (h : m.Becomes n) (request : Request) :
    m.Becomes (n.answer request).2 :=
  h.trans ⟨(n.answer_settings request).1, (n.answer_settings request).2, h.keyed.answer request⟩

structure Stays (m n : Memory) : Prop extends Becomes m n where
  items : n.items = m.items

theorem Stays.refl (h : m.Keyed) : m.Stays m := ⟨.refl h, rfl⟩

theorem Stays.answer (h : m.Stays n) (read : Read) : m.Stays (n.answer (.read read)).2 := by
  refine ⟨h.toBecomes.answer _, Eq.trans ?_ h.items⟩
  unfold Memory.answer
  split
  · rfl
  · split
    next hafter => exact (interrupt_settings hafter).2.2
    next => rfl

theorem Stays.read (h : m.Stays n) (read : Read) : n.read read = m.read read := by
  obtain ⟨table, pageSize, items⟩ := m
  obtain ⟨table', pageSize', items'⟩ := n
  obtain rfl : table' = table := h.table
  obtain rfl : pageSize' = pageSize := h.pageSize
  obtain rfl : items' = items := h.items
  rfl

theorem Stays.read_of_ok (h : m.Stays n) {read : Read} {page : Page}
    (hpage : (n.answer (.read read)).1 = .ok page) : m.read read = .ok page := by
  rw [answer_of_ok hpage] at hpage
  have hcount : m.Stays (n.count (.read read)) := ⟨⟨h.table, h.pageSize, h.keyed⟩, h.items⟩
  rw [← hcount.read]
  exact hpage

end Memory

end KeyedTable
