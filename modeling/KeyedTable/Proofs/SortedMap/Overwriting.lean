import KeyedTable.SortedMap

namespace KeyedTable

variable {κ α : Type} [LT κ] [DecidableLT κ]

namespace Entries

theorem mem_ofList {entries : List (κ × α)} {e : κ × α} (h : e ∈ ofList entries) :
    e ∈ entries := by
  have hfold : ∀ (es m : List (κ × α)), e ∈ es.foldl (fun m e => insert e.1 e.2 m) m →
      e ∈ m ∨ e ∈ es := by
    intro es
    induction es with
    | nil => exact fun _ h => .inl h
    | cons first es ih =>
      intro m h
      cases ih _ h with
      | inl h =>
        cases mem_insert h with
        | inl h => exact .inr (h ▸ List.mem_cons_self)
        | inr h => exact .inl h
      | inr h => exact .inr (List.mem_cons_of_mem _ h)
  exact (hfold entries [] h).resolve_left List.not_mem_nil

theorem length_insert_le (k : κ) (v : α) (entries : List (κ × α)) :
    (insert k v entries).length ≤ entries.length + 1 := by
  induction entries with
  | nil => exact Nat.le_refl 1
  | cons e rest ih =>
    rw [insert]
    split
    · exact Nat.le_refl _
    · split
      · exact Nat.succ_le_succ ih
      · exact Nat.le_succ _

theorem length_ofList_le (entries : List (κ × α)) : (ofList entries).length ≤ entries.length := by
  have hfold : ∀ es m : List (κ × α),
      (es.foldl (fun m e => insert e.1 e.2 m) m).length ≤ m.length + es.length := by
    intro es
    induction es with
    | nil => exact fun m => Nat.le_refl _
    | cons e es ih =>
      intro m
      have hfirst := length_insert_le e.1 e.2 m
      have hrest := ih (insert e.1 e.2 m)
      simp only [List.foldl_cons, List.length_cons]
      omega
  exact Nat.le_trans (hfold entries []) (Nat.le_of_eq (Nat.zero_add _))

variable [DecidableEq κ]

omit [LT κ] [DecidableLT κ] in
theorem lookup_append (k : κ) (entries rest : List (κ × α)) :
    lookup k (entries ++ rest) = (lookup k entries).or (lookup k rest) := by
  induction entries with
  | nil => rfl
  | cons e entries ih =>
    rw [List.cons_append, lookup, lookup, ih]
    split <;> rfl

omit [LT κ] [DecidableLT κ] in
theorem lookup_of_unique {entries : List (κ × α)} {k : κ} {v : α} (h : (k, v) ∈ entries)
    (hunique : ∀ e ∈ entries, e.1 = k → e.2 = v) : lookup k entries = some v := by
  induction entries with
  | nil => exact absurd h List.not_mem_nil
  | cons e entries ih =>
    obtain ⟨hfirst, hothers⟩ := List.forall_mem_cons.mp hunique
    rw [lookup]
    split
    next hk => rw [hfirst hk]
    next hk =>
      refine ih ((List.mem_cons.mp h).resolve_left fun he => hk ?_) hothers
      rw [← he]

omit [LT κ] [DecidableLT κ] in
theorem lookup_eq_none_iff {entries : List (κ × α)} {k : κ} :
    lookup k entries = none ↔ ∀ e ∈ entries, e.1 ≠ k := by
  induction entries with
  | nil => simp [lookup]
  | cons e entries ih =>
    rw [lookup, List.forall_mem_cons, ← ih]
    split <;> simp_all

omit [LT κ] [DecidableLT κ] in
theorem lookup_reverse_eq_some_iff {entries : List (κ × α)} {k : κ} {v : α} :
    lookup k entries.reverse = some v ↔
      ∃ before after, entries = before ++ (k, v) :: after ∧ ∀ e ∈ after, e.1 ≠ k := by
  constructor
  · intro h
    induction entries with
    | nil => cases h
    | cons e entries ih =>
      rw [List.reverse_cons, lookup_append] at h
      cases hrest : lookup k entries.reverse with
      | some other =>
        rw [hrest] at h ih
        obtain ⟨before, after, rfl, hafter⟩ := ih h
        exact ⟨e :: before, after, rfl, hafter⟩
      | none =>
        rw [hrest, Option.none_or, lookup] at h
        split at h
        next hk =>
          refine ⟨[], entries, by rw [← hk, ← Option.some.inj h, List.nil_append], ?_⟩
          exact fun e he => lookup_eq_none_iff.mp hrest e (List.mem_reverse.mpr he)
        next hk => cases h
  · rintro ⟨before, after, rfl, hafter⟩
    have hnone : lookup k after.reverse = none :=
      lookup_eq_none_iff.mpr fun e he => hafter e (List.mem_reverse.mp he)
    simp [lookup_append, hnone, lookup]

variable [KeyOrder κ]

theorem lookup_foldl_insert (k : κ) (entries : List (κ × α)) {m : List (κ × α)} (h : Sorted m) :
    lookup k (entries.foldl (fun m e => insert e.1 e.2 m) m) =
      (lookup k entries.reverse).or (lookup k m) := by
  induction entries generalizing m with
  | nil => rfl
  | cons e entries ih =>
    rw [List.foldl_cons, ih (sorted_insert h), lookup_insert e.1 k e.2 h, List.reverse_cons,
      lookup_append, Option.or_assoc]
    congr 1
    rw [lookup]
    split <;> rfl

theorem lookup_ofList (k : κ) (entries : List (κ × α)) :
    lookup k (ofList entries) = lookup k entries.reverse := by
  rw [ofList, lookup_foldl_insert k entries List.Pairwise.nil]
  exact Option.or_none

theorem mem_ofList_of_unique {entries : List (κ × α)} {k : κ} {v : α} (h : (k, v) ∈ entries)
    (hunique : ∀ e ∈ entries, e.1 = k → e.2 = v) : (k, v) ∈ ofList entries := by
  rw [← lookup_eq_some_iff (sorted_ofList entries), lookup_ofList]
  exact lookup_of_unique (List.mem_reverse.mpr h) fun e he => hunique e (List.mem_reverse.mp he)

theorem ofList_of_sorted {entries : List (κ × α)} (h : Sorted entries) :
    ofList entries = entries := by
  refine eq_of_mem_iff (sorted_ofList entries) h fun e => ⟨mem_ofList, fun he => ?_⟩
  refine mem_ofList_of_unique he fun other hother hk => ?_
  have hlookup := (lookup_eq_some_iff h).mpr hother
  rw [hk, (lookup_eq_some_iff h).mpr he] at hlookup
  exact (Option.some.inj hlookup).symm

end Entries

namespace SortedMap

variable [KeyOrder κ] [DecidableEq κ]

theorem get?_foldl_insert (entries : List (κ × α)) (m : SortedMap κ α) (k : κ) :
    (entries.foldl (fun m e => m.insert e.1 e.2) m).get? k =
      (Entries.lookup k entries.reverse).or (m.get? k) := by
  have hentries : ∀ m : SortedMap κ α, (entries.foldl (fun m e => m.insert e.1 e.2) m).entries =
      entries.foldl (fun m e => Entries.insert e.1 e.2 m) m.entries := by
    induction entries with
    | nil => exact fun m => rfl
    | cons e entries ih => exact fun m => ih (m.insert e.1 e.2)
  rw [get?, hentries, Entries.lookup_foldl_insert k entries m.sorted]
  rfl

end SortedMap

end KeyedTable
