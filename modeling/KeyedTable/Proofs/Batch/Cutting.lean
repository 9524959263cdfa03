import KeyedTable.Gateway.Batch

namespace KeyedTable

variable {α : Type} {size : Nat} {xs : List α} {blocks : List (List α)}

structure Cut (size : Nat) (xs : List α) (blocks : List (List α)) : Prop where
  flatten : blocks.flatten = xs
  nonempty : ∀ block ∈ blocks, block ≠ []
  length_le : ∀ block ∈ blocks, block.length ≤ size
  full : ∀ block ∈ blocks.dropLast, block.length = size

theorem Cut.nil : Cut size ([] : List α) [] where
  flatten := rfl
  nonempty _ h := absurd h List.not_mem_nil
  length_le _ h := absurd h List.not_mem_nil
  full _ h := absurd h List.not_mem_nil

theorem Cut.cons (hsize : 0 < size) (hxs : xs ≠ []) (h : Cut size (xs.drop size) blocks) :
    Cut size xs (xs.take size :: blocks) where
  flatten := by rw [List.flatten_cons, h.flatten, List.take_append_drop]
  nonempty := by
    refine List.forall_mem_cons.mpr ⟨fun htake => hxs ?_, h.nonempty⟩
    exact (List.take_eq_nil_iff.mp htake).resolve_left (Nat.ne_of_gt hsize)
  length_le := List.forall_mem_cons.mpr ⟨List.length_take_le size xs, h.length_le⟩
  full := by
    cases blocks with
    | nil => exact fun block hblock => absurd hblock List.not_mem_nil
    | cons next blocks =>
      -- Something is left after the first block, so that one is full.
      have hrest : (xs.drop size).length ≠ 0 := by
        rw [← h.flatten, List.flatten_cons, List.length_append]
        have := List.length_pos_iff.mpr (h.nonempty next List.mem_cons_self)
        omega
      refine List.forall_mem_cons.mpr ⟨?_, h.full⟩
      rw [List.length_drop] at hrest
      rw [List.length_take]
      omega

theorem batches_nil (hsize : 0 < size) : batches size ([] : List α) = [] := by
  have hcount : (0 + size - 1) / size = 0 := Nat.div_eq_of_lt (by omega)
  simp only [batches, List.length_nil, hcount, List.range_zero, List.map_nil]

theorem batches_cons (hsize : 0 < size) (hxs : xs ≠ []) :
    batches size xs = xs.take size :: batches size (xs.drop size) := by
  have hlength := List.length_pos_iff.mpr hxs
  have hcount : (xs.length + size - 1) / size = (xs.length - size + size - 1) / size + 1 := by
    rw [show xs.length + size - 1 = xs.length - 1 + size by omega, Nat.add_div_right _ hsize]
    by_cases hlast : xs.length ≤ size
    · rw [Nat.div_eq_of_lt (by omega : xs.length - 1 < size),
        Nat.div_eq_of_lt (by omega : xs.length - size + size - 1 < size)]
    · rw [Nat.sub_add_cancel (by omega : size ≤ xs.length)]
  simp only [batches, List.length_drop, hcount, List.range_succ_eq_map, List.map_cons,
    Nat.zero_mul, List.drop_zero, List.map_map, List.drop_drop]
  congr 2
  funext i
  simp only [Function.comp_apply, Nat.succ_mul, Nat.add_comm]

theorem cut_batches (hsize : 0 < size) (xs : List α) : Cut size xs (batches size xs) := by
  induction hn : xs.length using Nat.strongRecOn generalizing xs with
  | ind n ih =>
    cases xs with
    | nil => exact batches_nil hsize ▸ .nil
    | cons x xs =>
      rw [batches_cons hsize (List.cons_ne_nil x xs)]
      refine .cons hsize (List.cons_ne_nil x xs) (ih _ ?_ _ rfl)
      rw [← hn, List.length_drop, List.length_cons]
      omega

theorem length_batches_le_one (h : xs.length ≤ size) : (batches size xs).length ≤ 1 := by
  rw [batches, List.length_map, List.length_range]
  cases size with
  | zero => simp
  | succ size => exact Nat.lt_succ_iff.mp (Nat.div_lt_of_lt_mul (by omega))

theorem batches_map {β : Type} (f : α → β) (size : Nat) (xs : List α) :
    batches size (xs.map f) = (batches size xs).map (List.map f) := by
  simp only [batches, List.length_map, List.map_map, ← List.map_drop, ← List.map_take]
  rfl

end KeyedTable
