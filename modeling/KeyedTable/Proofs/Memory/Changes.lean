import KeyedTable.Proofs.Batch.Entries
import KeyedTable.Proofs.Memory.Becoming

namespace KeyedTable

def Request.IsRead : Request → Prop
  | .get _ _ | .getBatch _ _ | .read _ => True
  | .put _ | .writeBatch _ _ => False

namespace Memory

variable {l m n : Memory} {request : Request} {entries others : List WriteEntry} {done : Prop}

theorem answer_cases (m : Memory) (request : Request) :
    (∃ error, (m.answer request).1 = .error error ∧ (m.answer request).2.table = m.table ∧
      (m.answer request).2.items = m.items) ∨
      m.answer request = (m.count request).serve request := by
  unfold answer
  split
  next error _ => exact .inl ⟨error, rfl, rfl, rfl⟩
  next =>
    split
    next error after hafter =>
      obtain ⟨htable, -, hitems⟩ := interrupt_settings hafter
      exact .inl ⟨error, rfl, htable, hitems⟩
    next => exact .inr rfl

theorem items_answer_of_isRead (h : request.IsRead) (m : Memory) :
    (m.answer request).2.items = m.items := by
  obtain ⟨_, -, -, hitems⟩ | hserve := m.answer_cases request
  · exact hitems
  · rw [hserve]
    cases request with
    | get | getBatch | read => rfl
    | put | writeBatch => exact h.elim

theorem items_answer_of_refused {put : Put} {error : Error}
    (h : (m.answer (.put put)).1 = .error error) : (m.answer (.put put)).2.items = m.items := by
  obtain ⟨_, -, -, hitems⟩ | hserve := m.answer_cases (.put put)
  · exact hitems
  · rw [hserve] at h ⊢
    simp only [serve, Memory.put] at h ⊢
    split at h
    · rfl
    · cases h
    · split at h
      · cases h
      next hfails => rw [if_neg hfails]; rfl

theorem settings_of_throttled {detail : String}
    (h : m.answer request = (.error (.throttled detail), n)) :
    n.table = m.table ∧ n.items = m.items := by
  obtain ⟨_, -, htable, hitems⟩ | hserve := m.answer_cases request
  · rw [h] at htable hitems
    exact ⟨htable, hitems⟩
  · have hsettled := settled_serve (m.count request) request
    rw [← hserve, h] at hsettled
    cases hsettled _ rfl

structure Wrote (entries : List WriteEntry) (done : Prop) (m n : Memory) : Prop where
  table : n.table = m.table
  applied : done → n.items = entries.foldl (WriteEntry.apply m.table) m.items
  elsewhere : ∀ key, (∀ entry ∈ entries, entry.place m.table ≠ key) →
    n.items.get? key = m.items.get? key

namespace Wrote

theorem nothing (htable : n.table = m.table) (hitems : n.items = m.items) : Wrote [] done m n :=
  ⟨htable, fun _ => hitems, fun _ _ => by rw [hitems]⟩

theorem refused (htable : n.table = m.table) (hitems : n.items = m.items) (hdone : ¬ done) :
    Wrote entries done m n :=
  ⟨htable, fun h => absurd h hdone, fun _ _ => by rw [hitems]⟩

theorem put (m : Memory) (item : Item) : Wrote [.put item] done m (m.store item) where
  table := rfl
  applied _ := rfl
  elsewhere key hkey := by
    have hne : m.table.primaryOrder item ≠ key := hkey _ List.mem_cons_self
    rw [store, SortedMap.get?_insert, if_neg hne]

theorem delete (m : Memory) (key : Item) :
    Wrote [.delete key] done m { m with items := m.items.erase (m.table.primaryOrder key) } where
  table := rfl
  applied _ := rfl
  elsewhere other hother := by
    have hne : m.table.primaryOrder key ≠ other := hother _ List.mem_cons_self
    rw [SortedMap.get?_erase, if_neg hne.symm]

theorem append {first second : Prop} (h : Wrote entries first l m) (hrest : Wrote others second m n)
    (hdone : done → first ∧ second) : Wrote (entries ++ others) done l n where
  table := hrest.table.trans h.table
  applied hd := by
    obtain ⟨hfirst, hsecond⟩ := hdone hd
    rw [hrest.applied hsecond, h.applied hfirst, h.table, List.foldl_append]
  elsewhere key hkey := by
    obtain ⟨hentries, hothers⟩ := List.forall_mem_append.mp hkey
    rw [hrest.elsewhere key (h.table ▸ hothers), h.elsewhere key hentries]

theorem congr {finished : Prop} (h : Wrote entries finished m n) (htable : m.table = l.table)
    (hitems : m.items = l.items) (hdone : done → finished) : Wrote entries done l n :=
  (nothing htable hitems).append h fun hd => ⟨hd, hdone hd⟩

end Wrote

theorem wrote_applyEntries (m : Memory) (entries : List WriteEntry) :
    Wrote entries ((m.applyEntries entries).1 = .ok ()) m (m.applyEntries entries).2 := by
  induction entries generalizing m with
  | nil => exact .nothing rfl rfl
  | cons entry entries ih =>
    cases entry with
    | put item => exact (Wrote.put m item).append (ih _) fun hd => ⟨hd, hd⟩
    | delete key =>
      rw [applyEntries]
      split
      · exact .refused rfl rfl (by simp)
      · exact (Wrote.delete m key).append (ih _) fun hd => ⟨hd, hd⟩

theorem exists_wrote_writeBatch (m : Memory) (table : String) (entries : List WriteEntry) :
    ∃ k, (∀ unprocessed, (m.answer (.writeBatch table entries)).1 = .ok unprocessed →
        unprocessed = entries.drop k) ∧
      Wrote (entries.take k)
        (∃ unprocessed, (m.answer (.writeBatch table entries)).1 = .ok unprocessed) m
        (m.answer (.writeBatch table entries)).2 := by
  obtain ⟨error, herror, htable, hitems⟩ | hserve := m.answer_cases (.writeBatch table entries)
  · refine ⟨0, fun unprocessed h => ?_, .refused htable hitems ?_⟩
    · rw [herror] at h
      cases h
    · rintro ⟨unprocessed, h⟩
      rw [herror] at h
      cases h
  · let served := { m.count (.writeBatch table entries) with halving := m.halving - 1 }
    let k := m.processed entries.length
    have hwrote := wrote_applyEntries served (entries.take k)
    have hanswer : m.answer (.writeBatch table entries) =
        ((served.applyEntries (entries.take k)).1.map fun _ => entries.drop k,
          (served.applyEntries (entries.take k)).2) := hserve
    rw [hanswer]
    cases hresult : (served.applyEntries (entries.take k)).1 with
    | error error =>
      rw [hresult] at hwrote
      exact ⟨k, nofun, hwrote.congr rfl rfl nofun⟩
    | ok value =>
      rw [hresult] at hwrote
      exact ⟨k, fun _ h => (Except.ok.inj h).symm, hwrote.congr rfl rfl fun _ => rfl⟩

theorem wrote_put (m : Memory) (put : Put) :
    Wrote [.put put.item] ((m.answer (.put put)).1 = .ok ()) m (m.answer (.put put)).2 := by
  obtain ⟨error, herror, htable, hitems⟩ | hserve := m.answer_cases (.put put)
  · exact .refused htable hitems (by simp [herror])
  · have hstored : Wrote [.put put.item] True m ((m.count (.put put)).store put.item) :=
      (Wrote.put _ put.item).congr rfl rfl id
    rw [hserve]
    simp only [serve, Memory.put]
    split
    · exact .refused rfl rfl (by simp)
    · exact hstored.congr rfl rfl fun _ => trivial
    · split
      · exact hstored.congr rfl rfl fun _ => trivial
      · exact .refused rfl rfl (by simp)

theorem unwritten_of_answer {table : String} {unprocessed : List WriteEntry}
    (h : (m.answer (.writeBatch table entries)).1 = .ok unprocessed) (hne : entries ≠ []) :
    unprocessed <:+ entries ∧ unprocessed.length < entries.length := by
  obtain ⟨k, hunprocessed, -⟩ := m.exists_wrote_writeBatch table entries
  have hserved := h
  rw [answer_of_ok h] at hserved
  exact ⟨hunprocessed unprocessed h ▸ List.drop_suffix k entries, length_unwritten_lt hne hserved⟩

theorem unfound_of_answer {table : String} {keys : List Item} {found : Found}
    (h : (m.answer (.getBatch table keys)).1 = .ok found) (hne : keys ≠ []) :
    found.unprocessed <:+ keys ∧ found.unprocessed.length < keys.length := by
  rw [answer_of_ok h] at h
  refine ⟨?_, length_unfound_lt hne h⟩
  cases h
  exact List.drop_suffix ..

end Memory

end KeyedTable
