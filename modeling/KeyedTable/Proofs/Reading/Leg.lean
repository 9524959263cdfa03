import KeyedTable.Proofs.Gateway.InTurn
import KeyedTable.Proofs.Gateway.Respects
import KeyedTable.Proofs.Memory.Becoming

namespace KeyedTable

theorem SortedMap.restrict_restrict {κ α : Type} [LT κ] (m : SortedMap κ α) (keep : κ → Bool) :
    (m.restrict keep).restrict keep = m.restrict keep :=
  SortedMap.ext (by simp [SortedMap.restrict])

namespace Table

variable {table : Table} {index : Option String} {forward : Bool}

@[simp] theorem cursor_cursor (table : Table) (index : Option String) (item : Item) :
    table.cursor index (table.cursor index item) = table.cursor index item := by
  cases index with
  | none => exact SortedMap.restrict_restrict ..
  | some name => exact SortedMap.restrict_restrict ..

def Beyond (table : Table) (index : Option String) (forward : Bool) (start : Option Item)
    (item : Item) : Prop :=
  ∀ key ∈ start, table.Before index forward key item

instance (start : Option Item) : DecidablePred (table.Beyond index forward start) := fun item =>
  inferInstanceAs (Decidable (∀ key ∈ start, table.Before index forward key item))

theorem beyond_none (item : Item) : table.Beyond index forward none item := by
  intro key hkey
  cases hkey

@[simp] theorem beyond_some {key item : Item} :
    table.Beyond index forward (some key) item ↔ table.Before index forward key item := by
  simp [Beyond]

theorem Beyond.trans {start : Option Item} {a b : Item} (h : table.Beyond index forward start a)
    (hab : table.Before index forward a b) : table.Beyond index forward start b :=
  fun key hkey => (h key hkey).trans hab

theorem Before.of_not_before {key a b : Item} (ha : ¬ table.Before index forward key a)
    (hb : table.Before index forward key b) : table.Before index forward a b := by
  cases forward with
  | true =>
    change table.readOrder index a < table.readOrder index b
    by_cases h : table.readOrder index a < table.readOrder index key
    · exact KeyOrder.trans h hb
    · rw [KeyOrder.connected h ha]
      exact hb
  | false =>
    change table.readOrder index b < table.readOrder index a
    by_cases h : table.readOrder index key < table.readOrder index a
    · exact KeyOrder.trans hb h
    · rw [KeyOrder.connected ha h]
      exact hb

theorem Beyond.before {stop : Option Item} {a b : Item}
    (ha : ¬ table.Beyond index forward stop a) (hb : table.Beyond index forward stop b) :
    table.Before index forward a b := by
  cases stop with
  | none => exact absurd (beyond_none a) ha
  | some key => exact Before.of_not_before (fun h => ha (beyond_some.mpr h)) (beyond_some.mp hb)

end Table

/-- Items handed out from the start key on. The leg stops where the read is to go on, nowhere if
nothing is left; what is due from the one to the other is among the items. -/
structure Leg (table : Table) (index : Option String) (forward : Bool) (due : Item → Prop)
    (start : Option Item) (items : List Item) (stop : Option (Option Item)) : Prop where
  ordered : items.Pairwise (table.Before index forward)
  beyond : ∀ item ∈ items, table.Beyond index forward start item
  within : ∀ next ∈ stop, ∀ item ∈ items, ¬ table.Beyond index forward next item
  onward : ∀ next ∈ stop, ∀ item, table.Beyond index forward next item →
    table.Beyond index forward start item
  complete : ∀ item, due item → table.Beyond index forward start item →
    (∀ next ∈ stop, ¬ table.Beyond index forward next item) → item ∈ items

namespace Leg

variable {table : Table} {index : Option String} {forward : Bool} {due : Item → Prop}
  {start next : Option Item} {items others : List Item} {stop : Option (Option Item)}

theorem nothing : Leg table index forward due start [] (some start) where
  ordered := .nil
  beyond _ hitem := absurd hitem List.not_mem_nil
  within _ _ _ hitem := absurd hitem List.not_mem_nil
  onward := by simp
  complete item _ hstart hstop := absurd hstart (hstop start rfl)

theorem mono {due' : Item → Prop} (h : Leg table index forward due start items stop)
    (hdue : ∀ item, due' item → due item) : Leg table index forward due' start items stop :=
  { h with complete := fun item hitem => h.complete item (hdue item hitem) }

theorem append (h : Leg table index forward due start items (some next))
    (h' : Leg table index forward due next others stop) :
    Leg table index forward due start (items ++ others) stop where
  ordered := List.pairwise_append.mpr ⟨h.ordered, h'.ordered, fun a ha b hb =>
    Table.Beyond.before (h.within next rfl a ha) (h'.beyond b hb)⟩
  beyond item hitem := by
    cases List.mem_append.mp hitem with
    | inl hitem => exact h.beyond item hitem
    | inr hitem => exact h.onward next rfl item (h'.beyond item hitem)
  within last hlast item hitem := by
    cases List.mem_append.mp hitem with
    | inl hitem =>
      exact fun hbeyond => h.within next rfl item hitem (h'.onward last hlast item hbeyond)
    | inr hitem => exact h'.within last hlast item hitem
  onward last hlast item hbeyond := h.onward next rfl item (h'.onward last hlast item hbeyond)
  complete item hdue hstart hstop := by
    by_cases hnext : table.Beyond index forward next item
    · exact List.mem_append_right _ (h'.complete item hdue hnext hstop)
    · refine List.mem_append_left _ (h.complete item hdue hstart fun last hlast => ?_)
      cases hlast
      exact hnext

end Leg

namespace Memory

variable {m : Memory} {index : Option String} {forward : Bool} {items : List Item}

theorem isBeyond_iff (start : Option Item) (item : Item) :
    m.isBeyond index forward start item ↔ m.table.Beyond index forward start item := by
  cases start with
  | none => simp [isBeyond, Table.Beyond]
  | some key => rw [isBeyond_some_iff, Table.beyond_some]

theorem ahead_start (hordered : items.Pairwise (m.table.Before index forward))
    (start : Option Item) :
    m.Ahead index forward items start (items.filter (m.isBeyond index forward start)) := by
  refine ⟨?_, rfl⟩
  induction items with
  | nil => exact ⟨[], rfl⟩
  | cons item items ih =>
    obtain ⟨hitem, hitems⟩ := List.pairwise_cons.mp hordered
    by_cases hbeyond : m.isBeyond index forward start item
    · refine ⟨[], (List.filter_eq_self.mpr fun other hother => ?_).symm⟩
      cases List.mem_cons.mp hother with
      | inl heq => exact heq ▸ hbeyond
      | inr hother =>
        exact (isBeyond_iff ..).mpr (((isBeyond_iff ..).mp hbeyond).trans (hitem other hother))
    · obtain ⟨before, hbefore⟩ := ih hitems
      exact ⟨item :: before, by rw [List.filter_cons_of_neg hbeyond, List.cons_append, ← hbefore]⟩

theorem cursor_of_lastKey {start : Option Item} {limit : Option Nat} {test : Option Condition}
    {key : Item} (h : (m.page items index forward start limit test).lastKey = some key) :
    m.table.cursor index key = key ∧ ∀ item, m.table.Before index forward key item →
      m.table.Beyond index forward start item := by
  obtain ⟨last, hlast, rfl⟩ := exists_last h
  refine ⟨Table.cursor_cursor .., fun item hitem => ?_⟩
  have hbeyond := (isBeyond_iff start last).mp (List.mem_filter.mp hlast).2
  rw [← isBeyond_some_iff, isBeyond_cursor, isBeyond_some_iff] at hitem
  exact hbeyond.trans hitem

theorem leg_page (hordered : items.Pairwise (m.table.Before index forward)) (start : Option Item)
    {limit : Option Nat} (hlimit : limit ≠ some 0) (hpage : m.pageSize ≠ some 0)
    (test : Option Condition) :
    Leg m.table index forward (fun item => item ∈ items ∧ kept test item) start
      (m.page items index forward start limit test).items
      ((m.page items index forward start limit test).lastKey.map some) := by
  have hmem : ∀ item, item ∈ items.filter (m.isBeyond index forward start) ↔
      item ∈ items ∧ m.table.Beyond index forward start item := by
    intro item
    rw [List.mem_filter, isBeyond_iff]
  have hrest : (items.filter (m.isBeyond index forward start)).Pairwise
      (m.table.Before index forward) := hordered.filter _
  have hlast := @cursor_of_lastKey m index forward items start limit test
  cases turn_page hordered (ahead_start hordered start) hlimit hpage test with
  | last hkey hitems =>
    rw [hitems, hkey]
    refine ⟨hrest.filter _, fun item hitem => ?_, by simp, by simp, fun item hdue hstart _ => ?_⟩
    · exact ((hmem item).mp (List.mem_filter.mp hitem).1).2
    · exact List.mem_filter.mpr ⟨(hmem item).mpr ⟨hdue.1, hstart⟩, hdue.2⟩
  | @more seen left key hsplit _ _ hitems hkey hahead =>
    rw [hsplit] at hrest
    obtain ⟨hseen, -, hcross⟩ := List.pairwise_append.mp hrest
    have hleft : ∀ item, item ∈ left ↔ item ∈ items ∧ m.table.Before index forward key item := by
      intro item
      rw [← hahead.beyond, List.mem_filter, isBeyond_some_iff]
    have hpassed : ∀ item ∈ seen, item ∈ items ∧ m.table.Beyond index forward start item :=
      fun item hitem => (hmem item).mp (hsplit ▸ List.mem_append_left _ hitem)
    rw [hitems, hkey]
    refine ⟨hseen.filter _, fun item hitem => ?_, ?_, ?_, fun item hdue hstart hstop => ?_⟩
    · exact (hpassed item (List.mem_filter.mp hitem).1).2
    · rintro _ ⟨⟩ item hitem hbeyond
      have hitem := (List.mem_filter.mp hitem).1
      have hagain := (hleft item).mpr ⟨(hpassed item hitem).1, Table.beyond_some.mp hbeyond⟩
      exact Table.before_irrefl forward item (hcross item hitem item hagain)
    · rintro _ ⟨⟩ item hbeyond
      exact (hlast hkey).2 item (Table.beyond_some.mp hbeyond)
    · refine List.mem_filter.mpr ⟨?_, hdue.2⟩
      have hmem := (hmem item).mpr ⟨hdue.1, hstart⟩
      rw [hsplit] at hmem
      refine (List.mem_append.mp hmem).resolve_right fun hitem => ?_
      exact hstop (some key) rfl (Table.beyond_some.mpr ((hleft item).mp hitem).2)

end Memory

end KeyedTable
