import KeyedTable.Proofs.Memory.Keyed

namespace KeyedTable

namespace KeySchema

theorem orderTexts_congr {schema : KeySchema} {a b : Item}
    (h : ∀ name ∈ schema.names, a.get? name = b.get? name) :
    schema.orderTexts a = schema.orderTexts b :=
  List.map_congr_left fun name hname => by rw [h name hname]

@[simp] theorem length_orderTexts (schema : KeySchema) (item : Item) :
    (schema.orderTexts item).length = schema.names.length := by
  simp [orderTexts]

end KeySchema

namespace Table

variable (table : Table) (index : Option String)

def covers (item : Item) : Bool := (index.bind table.indexes.get?).all (·.coveredBy item)

def Registered : Prop := ∀ name ∈ index, (table.indexes.get? name).isSome

theorem registered_none : table.Registered none := by
  intro name hname
  cases hname

def Before (forward : Bool) (a b : Item) : Prop :=
  if forward then table.readOrder index a < table.readOrder index b
  else table.readOrder index b < table.readOrder index a

instance (forward : Bool) : DecidableRel (table.Before index forward) := fun a b =>
  inferInstanceAs (Decidable (if forward then table.readOrder index a < table.readOrder index b
    else table.readOrder index b < table.readOrder index a))

theorem get?_cursor_of_primary {name : String} (item : Item) (h : name ∈ table.primaryKey.names) :
    (table.cursor index item).get? name = item.get? name := by
  have hcontains : table.primaryKey.contains name = true :=
    (table.primaryKey.contains_iff name).mpr h
  cases index with
  | none => simp [cursor, hcontains]
  | some _ => simp [cursor, isKeyName, hcontains]

theorem get?_cursor_of_index {schema : KeySchema} {name : String} (item : Item)
    (hschema : index.bind table.indexes.get? = some schema) (h : name ∈ schema.names) :
    (table.cursor index item).get? name = item.get? name := by
  cases index with
  | none => cases hschema
  | some given =>
    have hentry : (given, schema) ∈ table.indexes.entries :=
      (table.indexes.get?_eq_some_iff).mp hschema
    have hkey : table.isKeyName name = true := by
      simp only [isKeyName, Bool.or_eq_true, List.any_eq_true]
      exact .inr ⟨schema, List.mem_map.mpr ⟨_, hentry, rfl⟩, (schema.contains_iff name).mpr h⟩
    simp [cursor, hkey]

@[simp] theorem readOrder_cursor (item : Item) :
    table.readOrder index (table.cursor index item) = table.readOrder index item := by
  have hprimary : table.primaryKey.orderTexts (table.cursor index item) =
      table.primaryKey.orderTexts item :=
    KeySchema.orderTexts_congr fun name => table.get?_cursor_of_primary index item
  cases hschema : index.bind table.indexes.get? with
  | none => simp [readOrder, hschema, hprimary]
  | some schema =>
    have hindex : schema.orderTexts (table.cursor index item) = schema.orderTexts item :=
      KeySchema.orderTexts_congr fun name => table.get?_cursor_of_index index item hschema
    simp [readOrder, hschema, hprimary, hindex]

theorem primaryOrder_of_readOrder {a b : Item}
    (h : table.readOrder index a = table.readOrder index b) :
    table.primaryOrder a = table.primaryOrder b := by
  have hparts := congrArg OrderKey.parts h
  refine congrArg OrderKey.mk (List.append_inj_right hparts ?_)
  cases index.bind table.indexes.get? <;> simp

variable {table index}

theorem before_irrefl (forward : Bool) (a : Item) : ¬ table.Before index forward a a := by
  cases forward <;> exact KeyOrder.irrefl _

theorem Before.trans {forward : Bool} {a b c : Item} (hab : table.Before index forward a b)
    (hbc : table.Before index forward b c) : table.Before index forward a c := by
  cases forward with
  | false => exact KeyOrder.trans hbc hab
  | true => exact KeyOrder.trans hab hbc

theorem Before.asymm {forward : Bool} {a b : Item} (h : table.Before index forward a b) :
    ¬ table.Before index forward b a :=
  fun h' => before_irrefl forward a (h.trans h')

end Table

namespace Memory

variable {m : Memory} {index : Option String}

theorem Keyed.mem_values (h : m.Keyed) (item : Item) :
    item ∈ m.items.values ↔ (m.table.primaryOrder item, item) ∈ m.items.entries := by
  constructor
  · intro hitem
    obtain ⟨e, he, rfl⟩ := List.mem_map.mp hitem
    rw [← h e he]
    exact he
  · exact fun he => List.mem_map.mpr ⟨_, he, rfl⟩

theorem Keyed.eq_of_primaryOrder (h : m.Keyed) {a b : Item} (ha : a ∈ m.items.values)
    (hb : b ∈ m.items.values) (hab : m.table.primaryOrder a = m.table.primaryOrder b) : a = b := by
  have ha' := (m.items.get?_eq_some_iff).mpr ((h.mem_values a).mp ha)
  have hb' := (m.items.get?_eq_some_iff).mpr ((h.mem_values b).mp hb)
  rw [hab] at ha'
  exact Option.some.inj (ha'.symm.trans hb')

theorem length_visible_le {items : List Item} (h : m.visible index = .ok items) :
    items.length ≤ m.items.size := by
  have hsize : m.items.values.length = m.items.size := List.length_map _
  cases index with
  | none =>
    cases h
    exact Nat.le_of_eq hsize
  | some name =>
    simp only [visible] at h
    split at h
    · cases h
    next schema _ =>
      cases h
      calc
        (SortedMap.ofList _).values.length = (Entries.ofList _).length := List.length_map _
        _ ≤ ((m.items.values.filter schema.coveredBy).map _).length := Entries.length_ofList_le _
        _ = (m.items.values.filter schema.coveredBy).length := List.length_map _
        _ ≤ m.items.values.length := List.length_filter_le _ _
        _ = m.items.size := hsize

/-- The items that a read through the index sees, in ascending order. -/
structure Sees (m : Memory) (index : Option String) (items : List Item) : Prop where
  visible : m.visible index = .ok items
  ordered : items.Pairwise (m.table.Before index true)
  mem_iff : ∀ item, item ∈ items ↔ item ∈ m.items.values ∧ m.table.covers index item
  length_le : items.length ≤ m.items.size

theorem Sees.resized {items : List Item} (h : m.Sees index items) (pageSize : Option Nat) :
    Sees { m with pageSize } index items :=
  ⟨h.visible, h.ordered, h.mem_iff, h.length_le⟩

theorem sees_table (h : m.Keyed) : m.Sees none m.items.values where
  visible := rfl
  ordered := by
    refine List.pairwise_map.mpr (m.items.sorted.imp_of_mem fun {a b} ha hb hab => ?_)
    rw [h a ha, h b hb] at hab
    exact hab
  mem_iff item := by simp [Table.covers]
  length_le := by simp [SortedMap.values, SortedMap.size]

theorem sees_index (h : m.Keyed) {name : String} {schema : KeySchema}
    (hschema : m.table.indexes.get? name = some schema) :
    ∃ items, m.Sees (some name) items := by
  let entries := (m.items.values.filter schema.coveredBy).map fun item =>
    (m.table.readOrder (some name) item, item)
  have hkey : ∀ e ∈ Entries.ofList entries, e.1 = m.table.readOrder (some name) e.2 := by
    intro e he
    obtain ⟨item, -, rfl⟩ := List.mem_map.mp (Entries.mem_ofList he)
    rfl
  have hvisible : m.visible (some name) = .ok (SortedMap.ofList entries).values := by
    simp [Memory.visible, hschema, entries]
  refine ⟨(SortedMap.ofList entries).values, hvisible, ?_, fun item => ?_,
    length_visible_le hvisible⟩
  · refine List.pairwise_map.mpr ((Entries.sorted_ofList entries).imp_of_mem
      fun {a b} ha hb hab => ?_)
    rw [hkey a ha, hkey b hb] at hab
    exact hab
  · have hcovers : m.table.covers (some name) item = schema.coveredBy item := by
      simp [Table.covers, hschema]
    rw [hcovers, ← List.mem_filter]
    constructor
    · intro hitem
      obtain ⟨e, he, rfl⟩ := List.mem_map.mp hitem
      obtain ⟨covered, hcovered, rfl⟩ := List.mem_map.mp (Entries.mem_ofList he)
      exact hcovered
    · intro hitem
      refine List.mem_map.mpr ⟨_, Entries.mem_ofList_of_unique
        (List.mem_map.mpr ⟨item, hitem, rfl⟩) fun e he hplace => ?_, rfl⟩
      obtain ⟨other, hother, rfl⟩ := List.mem_map.mp he
      exact h.eq_of_primaryOrder (List.mem_filter.mp hother).1 (List.mem_filter.mp hitem).1
        (m.table.primaryOrder_of_readOrder _ hplace)

theorem exists_sees (h : m.Keyed) (hindex : m.table.Registered index) :
    ∃ items, m.Sees index items := by
  cases index with
  | none => exact ⟨_, sees_table h⟩
  | some name =>
    obtain ⟨schema, hschema⟩ := Option.isSome_iff_exists.mp (hindex name rfl)
    exact sees_index h hschema

end Memory

end KeyedTable
