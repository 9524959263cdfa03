import KeyedTable.Proofs.Batch.Cutting
import KeyedTable.Proofs.Memory.Throttled
import KeyedTable.Proofs.Merging

namespace KeyedTable

namespace SortedMap

variable {κ α : Type} [LT κ] [DecidableEq κ] [KeyOrder κ]

omit [DecidableEq κ] in
theorem nodup_keys (m : SortedMap κ α) : m.keys.Nodup := by
  refine List.pairwise_map.mpr (m.sorted.imp fun {a b} hab heq => ?_)
  rw [heq] at hab
  exact KeyOrder.irrefl _ hab

theorem mem_keys_iff (m : SortedMap κ α) (k : κ) : k ∈ m.keys ↔ (m.get? k).isSome := by
  rw [Option.isSome_iff_exists]
  constructor
  · intro hk
    obtain ⟨e, he, rfl⟩ := List.mem_map.mp hk
    exact ⟨e.2, m.get?_eq_some_iff.mpr he⟩
  · rintro ⟨v, hv⟩
    exact List.mem_map.mpr ⟨(k, v), m.get?_eq_some_iff.mp hv, rfl⟩

end SortedMap

namespace Table

theorem primaryOrder_keyOf (table : Table) (item : Item) :
    table.primaryOrder (table.keyOf item) = table.primaryOrder item :=
  table.primaryOrder_of_readOrder none (table.readOrder_cursor none item)

theorem size_keyOf {table : Table} (hkeys : table.primaryKey.names.Nodup) {key : Item}
    (h : table.primaryKey.coveredBy key) :
    (table.keyOf key).size = table.primaryKey.names.length := by
  have hmem : ∀ name, name ∈ (table.keyOf key).keys ↔ name ∈ table.primaryKey.names := by
    intro name
    have hcovered := List.all_eq_true.mp h name
    rw [SortedMap.mem_keys_iff, Table.get?_keyOf]
    by_cases hname : name ∈ table.primaryKey.names
    · simpa [SortedMap.contains, hname] using hcovered hname
    · simp [hname]
  have hperm := (List.perm_ext_iff_of_nodup (table.keyOf key).nodup_keys hkeys).mpr hmem
  simpa [SortedMap.size, SortedMap.keys] using hperm.length_eq

end Table

namespace WriteEntry

def apply (table : Table) (items : SortedMap OrderKey Item) :
    WriteEntry → SortedMap OrderKey Item
  | .put item => items.insert (table.primaryOrder item) item
  | .delete key => items.erase (table.primaryOrder key)

def Fits (table : Table) : WriteEntry → Prop
  | .put _ => True
  | .delete key => key.size = table.primaryKey.names.length

@[simp] theorem apply_reduce (table : Table) (items : SortedMap OrderKey Item)
    (entry : WriteEntry) : (entry.reduce table).apply table items = entry.apply table items := by
  cases entry with
  | put item => rfl
  | delete key => simp only [reduce, apply, table.primaryOrder_keyOf]

theorem fits_reduce {table : Table} (hkeys : table.primaryKey.names.Nodup) {entry : WriteEntry}
    (h : ∀ key, entry = .delete key → table.primaryKey.coveredBy key) :
    (entry.reduce table).Fits table := by
  cases entry with
  | put item => trivial
  | delete key => exact Table.size_keyOf hkeys (h key rfl)

theorem fits_of_mem_reduced {table : Table} (hkeys : table.primaryKey.names.Nodup)
    {entries : List WriteEntry}
    (h : ∀ key, .delete key ∈ entries → table.primaryKey.coveredBy key) :
    ∀ entry ∈ entries.map (reduce table), entry.Fits table := by
  intro entry hentry
  obtain ⟨original, horiginal, rfl⟩ := List.mem_map.mp hentry
  exact fits_reduce hkeys fun key hkey => h key (hkey ▸ horiginal)

def place (table : Table) : WriteEntry → OrderKey
  | .put item => table.primaryOrder item
  | .delete key => table.primaryOrder key

@[simp] theorem place_reduce (table : Table) (entry : WriteEntry) :
    (entry.reduce table).place table = entry.place table := by
  cases entry with
  | put item => rfl
  | delete key => exact table.primaryOrder_keyOf key

def leaves : WriteEntry → Option Item
  | .put item => some item
  | .delete _ => none

theorem get?_apply (table : Table) (items : SortedMap OrderKey Item) (entry : WriteEntry)
    (key : OrderKey) :
    (entry.apply table items).get? key =
      if key = entry.place table then entry.leaves else items.get? key := by
  cases entry with
  | put item =>
    rw [apply, SortedMap.get?_insert]
    by_cases h : key = table.primaryOrder item
    · rw [place, leaves, if_pos h, if_pos h.symm]
    · rw [place, if_neg h, if_neg (Ne.symm h)]
  | delete key' => exact SortedMap.get?_erase ..

theorem apply_comm {table : Table} {a b : WriteEntry} (h : a.place table ≠ b.place table)
    (items : SortedMap OrderKey Item) :
    a.apply table (b.apply table items) = b.apply table (a.apply table items) := by
  refine SortedMap.ext_get? fun key => ?_
  simp only [get?_apply]
  by_cases ha : key = a.place table
  · have hb : key ≠ b.place table := fun hb => h (ha.symm.trans hb)
    simp only [if_pos ha, if_neg hb]
  · simp only [if_neg ha]

/-- No entry of the one list changes what an entry of the other does. -/
def Apart (table : Table) (xs ys : List WriteEntry) : Prop :=
  ∀ x ∈ xs, ∀ y ∈ ys, x.place table ≠ y.place table

instance (table : Table) (xs ys : List WriteEntry) : Decidable (Apart table xs ys) :=
  inferInstanceAs (Decidable (∀ x ∈ xs, ∀ y ∈ ys, x.place table ≠ y.place table))

theorem foldl_apply_comm {table : Table} {xs ys : List WriteEntry} (h : Apart table xs ys)
    (items : SortedMap OrderKey Item) :
    ys.foldl (apply table) (xs.foldl (apply table) items) =
      xs.foldl (apply table) (ys.foldl (apply table) items) := by
  have hone : ∀ y ∈ ys, ∀ items, xs.foldl (apply table) (y.apply table items) =
      y.apply table (xs.foldl (apply table) items) := by
    intro y hy
    induction xs with
    | nil => exact fun _ => rfl
    | cons x xs ih =>
      intro items
      have hx := h x List.mem_cons_self y hy
      have hxs : Apart table xs ys := fun x' hx' => h x' (List.mem_cons_of_mem x hx')
      simp only [List.foldl_cons, apply_comm hx, ih hxs]
  induction ys generalizing items with
  | nil => rfl
  | cons y ys ih =>
    have hys : Apart table xs ys := fun x hx y' hy' => h x hx y' (List.mem_cons_of_mem y hy')
    rw [List.foldl_cons, List.foldl_cons, ← hone y List.mem_cons_self]
    exact ih hys _ fun y' hy' => hone y' (List.mem_cons_of_mem y hy')

/-- It does not matter in what order lists are applied of which no two change the same item. -/
theorem foldl_of_merges {table : Table} {parts : List (List WriteEntry)} {whole : List WriteEntry}
    (h : Merges parts whole) (hapart : parts.Pairwise (Apart table))
    (items : SortedMap OrderKey Item) :
    whole.foldl (apply table) items = parts.flatten.foldl (apply table) items := by
  induction h generalizing items with
  | nothing h => rw [List.flatten_eq_nil_iff.mpr h]
  | @next before x part after whole _ ih =>
    obtain ⟨hbefore, hrest, hcross⟩ := List.pairwise_append.mp hapart
    obtain ⟨hpart, hafter⟩ := List.pairwise_cons.mp hrest
    have hothers : (before ++ part :: after).Pairwise (Apart table) := by
      refine List.pairwise_append.mpr ⟨hbefore, List.pairwise_cons.mpr ⟨?_, hafter⟩, ?_⟩
      · exact fun ys hys y hy => hpart ys hys y (List.mem_cons_of_mem x hy)
      · intro xs hxs
        obtain ⟨hfirst, hlast⟩ := List.forall_mem_cons.mp (hcross xs hxs)
        exact List.forall_mem_cons.mpr
          ⟨fun z hz y hy => hfirst z hz y (List.mem_cons_of_mem x hy), hlast⟩
    have hfirst : Apart table before.flatten [x] := by
      intro z hz y hy
      obtain ⟨xs, hxs, hz⟩ := List.mem_flatten.mp hz
      obtain rfl := List.mem_singleton.mp hy
      exact hcross xs hxs _ List.mem_cons_self z hz y List.mem_cons_self
    calc
      (x :: whole).foldl (apply table) items
      _ = (before ++ part :: after).flatten.foldl (apply table) (x.apply table items) :=
        ih hothers _
      _ = (before ++ (x :: part) :: after).flatten.foldl (apply table) items := by
        have hcomm := foldl_apply_comm hfirst items
        simp only [List.foldl_cons, List.foldl_nil] at hcomm
        simp only [List.flatten_append, List.flatten_cons, List.foldl_append, List.foldl_cons,
          hcomm]

end WriteEntry

end KeyedTable
