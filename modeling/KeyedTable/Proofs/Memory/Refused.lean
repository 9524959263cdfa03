import KeyedTable.Proofs.Batch.Writing
import KeyedTable.Proofs.Session.Course

namespace KeyedTable

def WriteEntry.LeadToMisfit (table : Table) (before entries : List WriteEntry) : Prop :=
  (∀ entry ∈ before, entry.Fits table) ∧
    ∃ key rest, entries = before ++ .delete key :: rest ∧ ¬ (WriteEntry.delete key).Fits table

theorem WriteEntry.fits_or_leadToMisfit (table : Table) (entries : List WriteEntry) :
    (∀ entry ∈ entries, entry.Fits table) ∨ ∃ before, LeadToMisfit table before entries := by
  induction entries with
  | nil => exact .inl fun _ hmem => absurd hmem List.not_mem_nil
  | cons entry entries ih =>
    by_cases hentry : entry.Fits table
    · refine ih.imp (fun hentries => List.forall_mem_cons.mpr ⟨hentry, hentries⟩) ?_
      rintro ⟨before, hbefore, key, rest, rfl, hkey⟩
      exact ⟨entry :: before, List.forall_mem_cons.mpr ⟨hentry, hbefore⟩, key, rest, rfl, hkey⟩
    · cases entry with
      | put item => exact absurd trivial hentry
      | delete key =>
        exact .inr ⟨[], fun _ hmem => absurd hmem List.not_mem_nil, key, entries, rfl, hentry⟩

namespace Memory

variable {m : Memory} {entries before : List WriteEntry}

theorem applyEntries_of_misfit (h : WriteEntry.LeadToMisfit m.table before entries) :
    m.applyEntries entries =
      (.error (.invalidArgument .keyMismatch),
        { m with items := before.foldl (WriteEntry.apply m.table) m.items }) := by
  obtain ⟨hbefore, key, rest, rfl, hkey⟩ := h
  induction before generalizing m with
  | nil => exact if_pos hkey
  | cons entry before ih =>
    obtain ⟨hentry, hothers⟩ := List.forall_mem_cons.mp hbefore
    cases entry with
    | put item => exact ih (m := m.store item) hothers hkey
    | delete first =>
      rw [List.cons_append, applyEntries, if_neg fun hne => hne hentry]
      exact ih hothers hkey

def served (m : Memory) (entries : List WriteEntry) : List WriteEntry :=
  entries.take (m.processed entries.length)

theorem writeBatch_of_fits (h : ∀ entry ∈ m.served entries, entry.Fits m.table) :
    (m.writeBatch entries).1 = .ok (entries.drop (m.processed entries.length)) := by
  have happlied := applyEntries_of_fits (m := { m with halving := m.halving - 1 }) h
  rw [served] at happlied
  simp only [writeBatch, happlied]
  rfl

theorem writeBatch_of_misfit (h : WriteEntry.LeadToMisfit m.table before (m.served entries)) :
    m.writeBatch entries =
      (.error (.invalidArgument .keyMismatch),
        { m with
          halving := m.halving - 1
          items := before.foldl (WriteEntry.apply m.table) m.items }) := by
  have happlied := applyEntries_of_misfit (m := { m with halving := m.halving - 1 }) h
  rw [served] at happlied
  simp only [writeBatch, happlied]
  rfl

/-- What a request that is refused writes all the same. -/
def WritesAnyway (m : Memory) (request : Request) (before : List WriteEntry) : Prop :=
  ∃ table entries, request = .writeBatch table entries ∧
    WriteEntry.LeadToMisfit m.table before (m.served entries)

theorem answer_of_writesAnyway {request : Request} (h : m.WritesAnyway request before)
    (hcheck : m.check request = .ok ()) (hinterrupt : m.interrupt = none) :
    (m.answer request).1 = .error (.invalidArgument .keyMismatch) ∧
      (m.answer request).2.items = before.foldl (WriteEntry.apply m.table) m.items := by
  obtain ⟨table, entries, rfl, hmisfit⟩ := h
  have hbatch := writeBatch_of_misfit (m := m.count (.writeBatch table entries)) hmisfit
  simp only [answer, hcheck, hinterrupt, serve, hbatch]
  exact ⟨trivial, rfl⟩

end Memory

/-- A request that is refused leaves the items as they were, unless it is a batch write that comes
to a delete whose key does not fit: the entries before that delete are written, and whenever nothing
else is wrong with such a batch this is what happens. -/
theorem refused_leaves_items (m : Memory) (request : Request) :
    (∀ error, (m.answer request).1 = .error error →
      (m.answer request).2.items = m.items ∨
        error = .invalidArgument .keyMismatch ∧ ∃ before, m.WritesAnyway request before ∧
          (m.answer request).2.items = before.foldl (WriteEntry.apply m.table) m.items) ∧
    ∀ before, m.WritesAnyway request before → m.check request = .ok () → m.interrupt = none →
      (m.answer request).1 = .error (.invalidArgument .keyMismatch) ∧
        (m.answer request).2.items = before.foldl (WriteEntry.apply m.table) m.items := by
  refine ⟨fun error herror => ?_, fun before => Memory.answer_of_writesAnyway⟩
  obtain ⟨_, -, -, hitems⟩ | hserve := m.answer_cases request
  · exact .inl hitems
  have hread (h : request.IsRead) : (m.answer request).2.items = m.items :=
    Memory.items_answer_of_isRead h m
  cases request with
  | get | getBatch | read => exact .inl (hread trivial)
  | put put => exact .inl (Memory.items_answer_of_refused herror)
  | writeBatch table entries =>
    have hbatch : m.answer (.writeBatch table entries) =
        (m.count (.writeBatch table entries)).writeBatch entries := hserve
    rw [hbatch] at herror ⊢
    obtain hfits | ⟨before, hmisfit⟩ :=
      WriteEntry.fits_or_leadToMisfit m.table (m.served entries)
    · rw [Memory.writeBatch_of_fits (m := m.count _) hfits] at herror
      cases herror
    · rw [Memory.writeBatch_of_misfit (m := m.count _) hmisfit] at herror ⊢
      exact .inr ⟨(Except.error.inj herror).symm, before, ⟨table, entries, rfl, hmisfit⟩, rfl⟩

theorem refused_leaves_items_but_one :
    let table : Table := ⟨"orders", ⟨"id", none⟩, .empty⟩
    let item (id : String) : Item := SortedMap.empty.insert "id" (.string id)
    let m : Memory := { Memory.new table none [item "1"] with halving := 1 }
    let request : Request :=
      .writeBatch "orders" [.put (item "2"), .delete .empty, .put (item "3"), .delete (item "1")]
    m.WritesAnyway request [.put (item "2")] ∧
      (m.answer request).1 = .error (.invalidArgument .keyMismatch) ∧
      (m.answer request).2.items.values = [item "1", item "2"] ∧
      (m.answer (.getBatch "orders" [])).2.items = m.items := by
  intro table item m request
  have hanyway : m.WritesAnyway request [.put (item "2")] := by
    refine ⟨_, _, rfl, fun entry hentry => ?_, .empty, [], by decide +kernel, nofun⟩
    cases List.mem_singleton.mp hentry
    trivial
  obtain ⟨hrefused, hitems⟩ :=
    (refused_leaves_items m request).2 _ hanyway rfl rfl
  have hempty := (refused_leaves_items m (.getBatch "orders" [])).1 _ rfl
  exact ⟨hanyway, hrefused, by rw [hitems]; decide +kernel, hempty.resolve_right nofun⟩

/-- The batch is refused for its second entry, and its first one is in the table. -/
theorem refused_batch_changes_items :
    ¬ ∀ (m : Memory) (request : Request) (error : Error),
      (m.answer request).1 = .error error → (m.answer request).2.items = m.items := by
  intro h
  let table : Table := ⟨"orders", ⟨"id", none⟩, .empty⟩
  let item : Item := SortedMap.empty.insert "id" (.string "1")
  have hitems := h (Memory.new table none []) (.writeBatch "orders" [.put item, .delete .empty])
    (.invalidArgument .keyMismatch) (by decide +kernel)
  exact absurd (congrArg SortedMap.size hitems) (by decide +kernel)

end KeyedTable
