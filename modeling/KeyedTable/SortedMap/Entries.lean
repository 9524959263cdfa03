namespace KeyedTable

class KeyOrder (κ : Type) [LT κ] : Prop where
  irrefl (a : κ) : ¬ a < a
  trans {a b c : κ} : a < b → b < c → a < c
  connected {a b : κ} : ¬ a < b → ¬ b < a → a = b

instance : KeyOrder String where
  irrefl := String.lt_irrefl
  trans := String.lt_trans
  connected h h' := String.le_antisymm (String.not_lt.mp h') (String.not_lt.mp h)

namespace Entries

variable {κ α : Type}

def lookup [DecidableEq κ] (k : κ) : List (κ × α) → Option α
  | [] => none
  | e :: rest => if e.1 = k then some e.2 else lookup k rest

def insert [LT κ] [DecidableLT κ] (k : κ) (v : α) : List (κ × α) → List (κ × α)
  | [] => [(k, v)]
  | e :: rest =>
    if k < e.1 then (k, v) :: e :: rest
    else if e.1 < k then e :: insert k v rest
    else (k, v) :: rest

def ofList [LT κ] [DecidableLT κ] (entries : List (κ × α)) : List (κ × α) :=
  entries.foldl (fun m e => insert e.1 e.2 m) []

abbrev Sorted [LT κ] (entries : List (κ × α)) : Prop := entries.Pairwise fun a b => a.1 < b.1

theorem mem_insert [LT κ] [DecidableLT κ] {k : κ} {v : α} {entries : List (κ × α)} {e : κ × α}
    (h : e ∈ insert k v entries) : e = (k, v) ∨ e ∈ entries := by
  induction entries with
  | nil => exact .inl (List.mem_singleton.mp h)
  | cons x rest ih =>
    rw [insert] at h
    split at h
    · rcases List.mem_cons.mp h with h | h
      · exact .inl h
      · exact .inr h
    · split at h
      · rcases List.mem_cons.mp h with h | h
        · exact .inr (h ▸ List.mem_cons_self)
        · exact (ih h).imp id (List.mem_cons_of_mem _)
      · rcases List.mem_cons.mp h with h | h
        · exact .inl h
        · exact .inr (List.mem_cons_of_mem _ h)

variable [LT κ] [DecidableLT κ] [KeyOrder κ]

theorem sorted_insert {k : κ} {v : α} {entries : List (κ × α)} (h : Sorted entries) :
    Sorted (insert k v entries) := by
  induction entries with
  | nil => exact List.pairwise_singleton _ _
  | cons x rest ih =>
    obtain ⟨hx, hrest⟩ := List.pairwise_cons.mp h
    rw [insert]
    split
    next hlt =>
      refine List.pairwise_cons.mpr ⟨fun e he => ?_, h⟩
      rcases List.mem_cons.mp he with rfl | he
      · exact hlt
      · exact KeyOrder.trans hlt (hx e he)
    next hge =>
      split
      next hgt =>
        refine List.pairwise_cons.mpr ⟨fun e he => ?_, ih hrest⟩
        rcases mem_insert he with rfl | he
        · exact hgt
        · exact hx e he
      next hle =>
        have hk : k = x.1 := KeyOrder.connected hge hle
        exact List.pairwise_cons.mpr ⟨fun e he => hk ▸ hx e he, hrest⟩

theorem sorted_ofList (entries : List (κ × α)) : Sorted (ofList entries) := by
  have step : ∀ (es m : List (κ × α)), Sorted m →
      Sorted (es.foldl (fun m e => insert e.1 e.2 m) m) := by
    intro es
    induction es with
    | nil => exact fun _ hm => hm
    | cons e es ih => exact fun m hm => ih _ (sorted_insert hm)
  exact step entries [] List.Pairwise.nil

variable [DecidableEq κ]

theorem lookup_insert (k k' : κ) (v : α) {entries : List (κ × α)} (h : Sorted entries) :
    lookup k' (insert k v entries) = if k = k' then some v else lookup k' entries := by
  induction entries with
  | nil => simp [insert, lookup]
  | cons x rest ih =>
    obtain ⟨hx, hrest⟩ := List.pairwise_cons.mp h
    rw [insert]
    split
    next hlt => rfl
    next hge =>
      split
      next hgt =>
        rw [lookup, lookup, ih hrest]
        by_cases hxk : x.1 = k'
        · have : k ≠ k' := fun hk => KeyOrder.irrefl k' (by rw [hxk, hk] at hgt; exact hgt)
          simp [hxk, this]
        · simp [hxk]
      next hle =>
        have hk : k = x.1 := KeyOrder.connected hge hle
        rw [lookup, lookup]
        by_cases hkk : k = k'
        · simp [hkk]
        · simp [hkk, ← hk]

omit [DecidableLT κ] in
theorem lookup_eq_some_iff {k : κ} {v : α} {entries : List (κ × α)} (h : Sorted entries) :
    lookup k entries = some v ↔ (k, v) ∈ entries := by
  induction entries with
  | nil => simp [lookup]
  | cons x rest ih =>
    obtain ⟨hx, hrest⟩ := List.pairwise_cons.mp h
    rw [lookup]
    split
    next hk =>
      constructor
      · intro hv
        obtain rfl := Option.some.inj hv
        exact hk ▸ List.mem_cons_self
      · intro hm
        rcases List.mem_cons.mp hm with hm | hm
        · rw [← hm]
        · exact absurd (hx _ hm) (hk ▸ KeyOrder.irrefl k)
    next hk =>
      rw [ih hrest]
      constructor
      · exact List.mem_cons_of_mem _
      · intro hm
        rcases List.mem_cons.mp hm with hm | hm
        · exact absurd (by rw [← hm]) hk
        · exact hm

omit [DecidableLT κ] [DecidableEq κ] in
theorem eq_of_mem_iff {a b : List (κ × α)} (ha : Sorted a) (hb : Sorted b)
    (h : ∀ e, e ∈ a ↔ e ∈ b) : a = b := by
  induction a generalizing b with
  | nil =>
    cases b with
    | nil => rfl
    | cons y b => exact absurd ((h y).mpr List.mem_cons_self) (List.not_mem_nil)
  | cons x a ih =>
    obtain ⟨hxa, ha'⟩ := List.pairwise_cons.mp ha
    cases b with
    | nil => exact absurd ((h x).mp List.mem_cons_self) (List.not_mem_nil)
    | cons y b =>
      obtain ⟨hyb, hb'⟩ := List.pairwise_cons.mp hb
      have hxy : x = y := by
        rcases List.mem_cons.mp ((h x).mp List.mem_cons_self) with hx | hx
        · exact hx
        · rcases List.mem_cons.mp ((h y).mpr List.mem_cons_self) with hy | hy
          · exact hy.symm
          · exact absurd (KeyOrder.trans (hxa y hy) (hyb x hx)) (KeyOrder.irrefl _)
      subst hxy
      congr 1
      refine ih ha' hb' fun e => ⟨fun he => ?_, fun he => ?_⟩
      · rcases List.mem_cons.mp ((h e).mp (List.mem_cons_of_mem _ he)) with rfl | he'
        · exact absurd (hxa _ he) (KeyOrder.irrefl _)
        · exact he'
      · rcases List.mem_cons.mp ((h e).mpr (List.mem_cons_of_mem _ he)) with rfl | he'
        · exact absurd (hyb _ he) (KeyOrder.irrefl _)
        · exact he'

end Entries

end KeyedTable
