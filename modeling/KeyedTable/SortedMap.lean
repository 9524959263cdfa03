import KeyedTable.SortedMap.Entries

namespace KeyedTable

structure SortedMap (κ α : Type) [LT κ] where
  entries : List (κ × α)
  sorted : Entries.Sorted entries

namespace SortedMap

variable {κ α : Type} [LT κ]

@[ext] theorem ext {m n : SortedMap κ α} (h : m.entries = n.entries) : m = n := by
  cases m; cases n; cases h; rfl

instance [DecidableEq κ] [DecidableEq α] : DecidableEq (SortedMap κ α) := fun m n =>
  decidable_of_iff (m.entries = n.entries) ⟨SortedMap.ext, fun h => h ▸ rfl⟩

def empty : SortedMap κ α := ⟨[], List.Pairwise.nil⟩

instance : Inhabited (SortedMap κ α) := ⟨empty⟩

def size (m : SortedMap κ α) : Nat := m.entries.length

def isEmpty (m : SortedMap κ α) : Bool := m.entries.isEmpty

def keys (m : SortedMap κ α) : List κ := m.entries.map (·.1)

def values (m : SortedMap κ α) : List α := m.entries.map (·.2)

def get? [DecidableEq κ] (m : SortedMap κ α) (k : κ) : Option α := Entries.lookup k m.entries

def contains [DecidableEq κ] (m : SortedMap κ α) (k : κ) : Bool := (m.get? k).isSome

def restrict (m : SortedMap κ α) (keep : κ → Bool) : SortedMap κ α :=
  ⟨m.entries.filter fun e => keep e.1, m.sorted.filter _⟩

def erase [DecidableEq κ] (m : SortedMap κ α) (k : κ) : SortedMap κ α := m.restrict (· ≠ k)

variable [DecidableLT κ] [KeyOrder κ]

def insert (m : SortedMap κ α) (k : κ) (v : α) : SortedMap κ α :=
  ⟨Entries.insert k v m.entries, Entries.sorted_insert m.sorted⟩

def ofList (entries : List (κ × α)) : SortedMap κ α :=
  ⟨Entries.ofList entries, Entries.sorted_ofList entries⟩

variable [DecidableEq κ]

omit [DecidableLT κ] [KeyOrder κ] in
@[simp] theorem get?_empty (k : κ) : (empty : SortedMap κ α).get? k = none := rfl

theorem get?_insert (m : SortedMap κ α) (k k' : κ) (v : α) :
    (m.insert k v).get? k' = if k = k' then some v else m.get? k' :=
  Entries.lookup_insert k k' v m.sorted

@[simp] theorem get?_insert_self (m : SortedMap κ α) (k : κ) (v : α) :
    (m.insert k v).get? k = some v := by simp [get?_insert]

omit [DecidableLT κ] in
theorem get?_eq_some_iff (m : SortedMap κ α) {k : κ} {v : α} :
    m.get? k = some v ↔ (k, v) ∈ m.entries :=
  Entries.lookup_eq_some_iff m.sorted

omit [DecidableLT κ] in
theorem get?_restrict (m : SortedMap κ α) (keep : κ → Bool) (k : κ) :
    (m.restrict keep).get? k = if keep k then m.get? k else none := by
  refine Option.ext fun v => ?_
  rw [get?_eq_some_iff]
  by_cases h : keep k <;> simp [restrict, h, get?_eq_some_iff]

omit [DecidableLT κ] in
theorem get?_erase (m : SortedMap κ α) (k k' : κ) :
    (m.erase k).get? k' = if k' = k then none else m.get? k' := by
  rw [erase, get?_restrict]
  by_cases h : k' = k <;> simp [h]

omit [DecidableLT κ] in
theorem ext_get? {m n : SortedMap κ α} (h : ∀ k, m.get? k = n.get? k) : m = n := by
  refine SortedMap.ext (Entries.eq_of_mem_iff m.sorted n.sorted fun e => ?_)
  rw [← get?_eq_some_iff (m := m), ← get?_eq_some_iff (m := n), h]

end SortedMap

end KeyedTable
