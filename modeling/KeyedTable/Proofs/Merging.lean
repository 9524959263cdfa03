import Mathlib.Data.List.Flatten
import Mathlib.Data.List.Forall2
import Mathlib.Data.List.Nodup

namespace KeyedTable

variable {α β : Type}

theorem forall₂_append_iff {R : α → β → Prop} {before after : List α} {ys : List β} :
    List.Forall₂ R (before ++ after) ys ↔
      ∃ first last, ys = first ++ last ∧ List.Forall₂ R before first ∧
        List.Forall₂ R after last := by
  constructor
  · intro h
    induction before generalizing ys with
    | nil => exact ⟨[], ys, rfl, .nil, h⟩
    | cons x before ih =>
      obtain ⟨y, rest, hy, hrest, rfl⟩ := List.forall₂_cons_left_iff.mp h
      obtain ⟨first, last, rfl, hfirst, hlast⟩ := ih hrest
      exact ⟨y :: first, last, rfl, .cons hy hfirst, hlast⟩
  · rintro ⟨first, last, rfl, hfirst, hlast⟩
    exact List.rel_append hfirst hlast

theorem ne_of_nodup_middle {f : α → β} {before after : List α} {x : α}
    (h : ((before ++ x :: after).map f).Nodup) : ∀ y, y ∈ before ∨ y ∈ after → f y ≠ f x := by
  rw [List.map_append, List.map_cons, List.nodup_middle, List.nodup_cons, ← List.map_append] at h
  exact fun y hy heq => h.1 (heq ▸ List.mem_map_of_mem (List.mem_append.mpr hy))

theorem forall₂_middle_iff {R : α → β → Prop} {before after : List α} {x : α} {ys : List β} :
    List.Forall₂ R (before ++ x :: after) ys ↔
      ∃ first y last, ys = first ++ y :: last ∧ List.Forall₂ R before first ∧ R x y ∧
        List.Forall₂ R after last := by
  rw [forall₂_append_iff]
  constructor
  · rintro ⟨first, rest, rfl, hfirst, hrest⟩
    obtain ⟨y, last, hy, hlast, rfl⟩ := List.forall₂_cons_left_iff.mp hrest
    exact ⟨first, y, last, rfl, hfirst, hy, hlast⟩
  · rintro ⟨first, y, last, rfl, hfirst, hy, hlast⟩
    exact ⟨first, y :: last, rfl, hfirst, .cons hy hlast⟩

theorem exists_of_forall₂_right {R : α → β → Prop} {xs : List α} {ys : List β}
    (h : List.Forall₂ R xs ys) {y : β} (hy : y ∈ ys) : ∃ x ∈ xs, R x y := by
  obtain ⟨first, last, rfl⟩ := List.append_of_mem hy
  obtain ⟨before, x, after, rfl, -, hx, -⟩ := forall₂_middle_iff.mp h.flip
  exact ⟨x, List.mem_append_right _ List.mem_cons_self, hx⟩

inductive Merges : List (List α) → List α → Prop
  | nothing {parts} : (∀ part ∈ parts, part = []) → Merges parts []
  | next {before x part after whole} : Merges (before ++ part :: after) whole →
      Merges (before ++ (x :: part) :: after) (x :: whole)

namespace Merges

variable {parts before after : List (List α)} {part whole : List α}

theorem push (own : List α) (h : Merges (before ++ part :: after) whole) :
    Merges (before ++ (own ++ part) :: after) (own ++ whole) := by
  induction own with
  | nil => exact h
  | cons x own ih => exact .next ih

theorem flatten (parts : List (List α)) : Merges parts parts.flatten := by
  have hfrom (before parts : List (List α)) (hbefore : ∀ part ∈ before, part = []) :
      Merges (before ++ parts) parts.flatten := by
    induction parts generalizing before with
    | nil => exact .nothing (by simpa using hbefore)
    | cons part parts ih =>
      have hrest := ih (before ++ [[]]) (by simpa [or_imp, forall_and] using hbefore)
      rw [List.append_assoc] at hrest
      have := hrest.push part
      rwa [List.append_nil] at this
  exact hfrom [] parts (List.forall_mem_nil _)

theorem perm (h : Merges parts whole) : whole.Perm parts.flatten := by
  induction h with
  | nothing h => rw [List.flatten_eq_nil_iff.mpr h]
  | @next before x part after whole _ ih =>
    rw [List.flatten_append, List.flatten_cons] at ih ⊢
    exact (ih.cons x).trans List.perm_middle.symm

theorem mem_iff {x : α} (h : Merges parts whole) : x ∈ whole ↔ ∃ part ∈ parts, x ∈ part :=
  h.perm.mem_iff.trans List.mem_flatten

theorem sublist (h : Merges parts whole) : ∀ part ∈ parts, part.Sublist whole := by
  induction h with
  | nothing h => exact fun part hpart => h part hpart ▸ List.Sublist.refl []
  | @next before x part after whole _ ih =>
    simp only [List.forall_mem_append, List.forall_mem_cons] at ih ⊢
    exact ⟨fun other hother => (ih.1 other hother).cons x, ih.2.1.cons_cons x,
      fun other hother => (ih.2.2 other hother).cons x⟩

theorem flatMap (f : α → List β) (h : Merges parts whole) :
    Merges (parts.map (List.flatMap f)) (whole.flatMap f) := by
  induction h with
  | nothing h =>
    refine .nothing fun part hpart => ?_
    obtain ⟨own, hown, rfl⟩ := List.mem_map.mp hpart
    rw [h own hown, List.flatMap_nil]
  | @next before x part after whole _ ih =>
    rw [List.map_append, List.map_cons] at ih ⊢
    exact ih.push (f x)

theorem map (f : α → β) (h : Merges parts whole) :
    Merges (parts.map (List.map f)) (whole.map f) := by
  have hmap : (List.map f : List α → List β) = List.flatMap fun x => [f x] :=
    funext fun xs => List.map_eq_flatMap
  rw [hmap]
  exact h.flatMap fun x => [f x]

theorem filter (p : α → Bool) (h : Merges parts whole) :
    Merges (parts.map (List.filter p)) (whole.filter p) := by
  induction h with
  | nothing h =>
    refine .nothing fun part hpart => ?_
    obtain ⟨own, hown, rfl⟩ := List.mem_map.mp hpart
    rw [h own hown, List.filter_nil]
  | @next before x part after whole _ ih =>
    rw [List.map_append, List.map_cons] at ih ⊢
    by_cases hx : p x
    · rw [List.filter_cons_of_pos hx, List.filter_cons_of_pos hx]
      exact .next ih
    · rwa [List.filter_cons_of_neg hx, List.filter_cons_of_neg hx]

theorem exists_beside {R : α → β → Prop} (h : Merges parts whole) {others : List β}
    (hbeside : List.Forall₂ R whole others) :
    ∃ lists, Merges lists others ∧ List.Forall₂ (List.Forall₂ R) parts lists := by
  induction h generalizing others with
  | @nothing parts h =>
    cases hbeside
    refine ⟨parts.map fun _ => [], .nothing (by simp), ?_⟩
    refine List.forall₂_map_right_iff.mpr (List.forall₂_same.mpr fun part hpart => ?_)
    rw [h part hpart]
    exact .nil
  | @next before x part after whole _ ih =>
    obtain ⟨y, others, hxy, hothers, rfl⟩ := List.forall₂_cons_left_iff.mp hbeside
    obtain ⟨lists, hmerges, hlists⟩ := ih hothers
    obtain ⟨first, list, last, rfl, hfirst, hlist, hlast⟩ := forall₂_middle_iff.mp hlists
    exact ⟨first ++ (y :: list) :: last, .next hmerges,
      forall₂_middle_iff.mpr ⟨first, _, last, rfl, hfirst, .cons hxy hlist, hlast⟩⟩

theorem eq_of_others_nil (h : Merges (before ++ part :: after) whole)
    (hbefore : ∀ other ∈ before, other = []) (hafter : ∀ other ∈ after, other = []) :
    whole = part := by
  have hlength := h.perm.length_eq
  rw [List.flatten_append, List.flatten_cons, List.flatten_eq_nil_iff.mpr hbefore,
    List.flatten_eq_nil_iff.mpr hafter, List.nil_append, List.append_nil] at hlength
  have hsublist := h.sublist part (List.mem_append_right before List.mem_cons_self)
  exact (hsublist.eq_of_length hlength.symm).symm

end Merges

end KeyedTable
