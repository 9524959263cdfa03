import Mathlib.Data.List.DropRight
import Mathlib.Data.List.Forall2
import KeyedTable.Text.Blank

namespace KeyedTable.Text

/-- The pieces with separators between them are the text, and none has a separator itself. -/
structure Separated (separator : Char) (pieces : List String) (text : String) : Prop where
  nonempty : pieces ≠ []
  free : ∀ piece ∈ pieces, separator ∉ piece.toList
  joined : String.intercalate (String.singleton separator) pieces = text

structure Padded (core text : String) : Prop where
  around : ∃ before after : String, text = before ++ core ++ after ∧
    (∀ c ∈ before.toList, isBlank c) ∧ ∀ c ∈ after.toList, isBlank c
  begins : ∀ c ∈ core.toList.head?, isBlank c = false
  ends : ∀ c ∈ core.toList.getLast?, isBlank c = false

variable {separator : Char}

theorem pieces_eq_splitOn (separator : Char) (cs : List Char) :
    pieces separator cs = cs.splitOn separator := by
  induction cs with
  | nil => rfl
  | cons c cs ih =>
    rw [pieces, List.splitOn_cons_eq_if_modifyHead, ih]
    by_cases hc : c = separator
    · simp [hc]
    · obtain ⟨first, rest, heq⟩ := List.exists_cons_of_ne_nil (List.splitOn_ne_nil separator cs)
      simp [hc, heq]

theorem not_mem_of_mem_pieces {cs piece : List Char} (h : piece ∈ pieces separator cs) :
    separator ∉ piece := by
  induction cs generalizing piece with
  | nil =>
    rw [pieces, List.mem_singleton] at h
    exact h ▸ List.not_mem_nil
  | cons c cs ih =>
    rw [pieces] at h
    split at h
    · obtain rfl | h := List.mem_cons.mp h
      · exact List.not_mem_nil
      · exact ih h
    next hc =>
      obtain ⟨first, rest, heq⟩ := List.exists_cons_of_ne_nil (pieces_ne_nil separator cs)
      rw [heq] at h ih
      obtain rfl | h := List.mem_cons.mp h
      · refine fun hmem => ?_
        obtain rfl | hmem := List.mem_cons.mp hmem
        · exact hc rfl
        · exact ih List.mem_cons_self hmem
      · exact ih (List.mem_cons_of_mem _ h)

theorem separated_iff {pieces : List String} {text : String} :
    Separated separator pieces text ↔ split text separator = pieces := by
  constructor
  · rintro ⟨hne, hfree, rfl⟩
    have hlists : ∀ piece ∈ pieces.map String.toList, separator ∉ piece :=
      List.forall_mem_map.mpr hfree
    rw [split, String.toList_intercalate, String.toList_singleton, pieces_eq_splitOn,
      List.splitOn_intercalate separator hlists (by simpa using hne)]
    simp
  · rintro rfl
    refine ⟨by simpa [split] using pieces_ne_nil separator text.toList, ?_, ?_⟩
    · intro piece hpiece
      obtain ⟨cs, hcs, rfl⟩ := List.mem_map.mp hpiece
      rw [String.toList_ofList]
      exact not_mem_of_mem_pieces hcs
    · refine String.toList_injective ?_
      have hlists : (split text separator).map String.toList = text.toList.splitOn separator := by
        simp [split, pieces_eq_splitOn, Function.comp_def]
      rw [String.toList_intercalate, String.toList_singleton, hlists, List.intercalate_splitOn]

theorem mem_intercalate {c : Char} {glue : String} {pieces : List String}
    (h : c ∈ (String.intercalate glue pieces).toList) :
    c ∈ glue.toList ∨ ∃ piece ∈ pieces, c ∈ piece.toList := by
  induction pieces with
  | nil => simp at h
  | cons piece pieces ih =>
    cases pieces with
    | nil => exact .inr ⟨piece, List.mem_singleton_self piece, by simpa using h⟩
    | cons next rest =>
      rw [String.toList_intercalate, List.map_cons, List.map_cons, List.intercalate_cons_cons,
        ← List.map_cons, ← String.toList_intercalate, List.mem_append, List.mem_append] at h
      obtain (h | h) | h := h
      · exact .inr ⟨piece, List.mem_cons_self, h⟩
      · exact .inl h
      · exact (ih h).imp_right fun ⟨other, hother, hc⟩ => ⟨other, List.mem_cons_of_mem _ hother, hc⟩

theorem trimmed_eq_rdropWhile (cs : List Char) :
    trimmed cs = (cs.dropWhile isBlank).rdropWhile isBlank := rfl

theorem trimmed_around {before core after : List Char} (hbefore : ∀ c ∈ before, isBlank c)
    (hafter : ∀ c ∈ after, isBlank c) (hbegins : ∀ c ∈ core.head?, isBlank c = false)
    (hends : ∀ c ∈ core.getLast?, isBlank c = false) :
    trimmed (before ++ core ++ after) = core := by
  rw [trimmed_eq_rdropWhile, List.append_assoc, List.dropWhile_append_of_pos hbefore]
  cases core with
  | nil =>
    rw [List.nil_append, List.dropWhile_eq_nil_iff.mpr hafter]
    rfl
  | cons c cs =>
    have hlast : ((c :: cs).rdropWhile isBlank) = c :: cs :=
      List.rdropWhile_eq_self_iff.mpr fun hne => by
        simp [hends _ (List.getLast?_eq_some_getLast hne)]
    rw [List.cons_append, List.dropWhile_cons_of_neg (by simp [hbegins c rfl]), ← List.cons_append,
      List.rdropWhile, List.reverse_append,
      List.dropWhile_append_of_pos fun c hc => hafter c (List.mem_reverse.mp hc)]
    exact hlast

theorem trim_around {before core after : String} (hbefore : ∀ c ∈ before.toList, isBlank c)
    (hafter : ∀ c ∈ after.toList, isBlank c) (hbegins : ∀ c ∈ core.toList.head?, isBlank c = false)
    (hends : ∀ c ∈ core.toList.getLast?, isBlank c = false) :
    trim (before ++ core ++ after) = core := by
  rw [trim, String.toList_append, String.toList_append,
    trimmed_around hbefore hafter hbegins hends, String.ofList_toList]

theorem padded_trim (text : String) : Padded (trim text) text where
  around := by
    refine ⟨String.ofList (text.toList.takeWhile isBlank),
      String.ofList ((text.toList.dropWhile isBlank).rtakeWhile isBlank), ?_, ?_, ?_⟩
    · refine String.toList_injective ?_
      simp only [trim, String.toList_append, String.toList_ofList, trimmed_eq_rdropWhile,
        List.append_assoc, List.rdropWhile_append_rtakeWhile, List.takeWhile_append_dropWhile]
    · intro c hc
      rw [String.toList_ofList] at hc
      exact List.mem_takeWhile_imp hc
    · intro c hc
      rw [String.toList_ofList] at hc
      exact List.mem_rtakeWhile_imp hc
  begins c hc := by
    rw [trim, String.toList_ofList, trimmed_eq_rdropWhile] at hc
    obtain ⟨after, hafter⟩ := List.rdropWhile_prefix isBlank (text.toList.dropWhile isBlank)
    have hhead := List.head?_dropWhile_not isBlank text.toList
    rw [← hafter, List.head?_append, Option.mem_def.mp hc] at hhead
    exact hhead
  ends c hc := by
    rw [trim, String.toList_ofList, trimmed_eq_rdropWhile] at hc
    obtain ⟨hne, rfl⟩ := List.mem_getLast?_eq_getLast hc
    simpa using List.rdropWhile_last_not isBlank _ hne

theorem padded_iff {core text : String} : Padded core text ↔ trim text = core := by
  constructor
  · rintro ⟨⟨before, after, rfl, hbefore, hafter⟩, hbegins, hends⟩
    exact trim_around hbefore hafter hbegins hends
  · rintro rfl
    exact padded_trim text

theorem forall₂_padded_iff {cores texts : List String} :
    List.Forall₂ Padded cores texts ↔ texts.map trim = cores := by
  rw [← List.forall₂_eq_eq_eq, List.forall₂_map_left_iff]
  constructor
  · exact fun h => (h.imp fun _ _ => padded_iff.mp).flip
  · exact fun h => h.flip.imp fun _ _ => padded_iff.mpr

theorem Padded.mem_iff {core text : String} (h : Padded core text) {c : Char}
    (hc : isBlank c = false) : c ∈ text.toList ↔ c ∈ core.toList := by
  obtain ⟨before, after, rfl, hbefore, hafter⟩ := h.around
  have hfree : ∀ {blanks : String}, (∀ c ∈ blanks.toList, isBlank c) → c ∉ blanks.toList :=
    fun hblanks hmem => by simp [hblanks c hmem] at hc
  simp [hfree hbefore, hfree hafter]

theorem trimmed_append (cs : List Char) {after : List Char} (hafter : ∀ c ∈ after, isBlank c) :
    trimmed (cs ++ after) = trimmed cs := by
  obtain ⟨⟨before, behind, htext, hbefore, hbehind⟩, hbegins, hends⟩ :=
    padded_trim (String.ofList cs)
  have hcs := congrArg String.toList htext
  simp only [trim, String.toList_ofList, String.toList_append] at hcs hbegins hends
  have hblank : ∀ c ∈ behind.toList ++ after, isBlank c :=
    List.forall_mem_append.mpr ⟨hbehind, hafter⟩
  rw [← trimmed_around hbefore hblank hbegins hends, ← List.append_assoc, ← hcs]

theorem trimmed_prepend {before : List Char} (hbefore : ∀ c ∈ before, isBlank c) (cs : List Char) :
    trimmed (before ++ cs) = trimmed cs := by
  rw [trimmed_eq_rdropWhile, List.dropWhile_append_of_pos hbefore, ← trimmed_eq_rdropWhile]

theorem pieces_append (cs : List Char) {after : List Char} (hafter : separator ∉ after) :
    List.Forall₂ (fun piece longer => longer = piece ∨ longer = piece ++ after)
      (pieces separator cs) (pieces separator (cs ++ after)) := by
  induction cs with
  | nil =>
    rw [List.nil_append, pieces_eq_splitOn separator after, List.splitOn_eq_singleton hafter]
    exact .cons (.inr rfl) .nil
  | cons c cs ih =>
    rw [List.cons_append, pieces, pieces]
    by_cases hc : c = separator
    · rw [if_pos hc, if_pos hc]
      exact .cons (.inl rfl) ih
    · rw [if_neg hc, if_neg hc]
      generalize pieces separator cs = short, pieces separator (cs ++ after) = long at ih
      cases ih with
      | nil => exact .cons (.inl rfl) .nil
      | cons hfirst hrest =>
        exact .cons (hfirst.imp (congrArg (c :: ·)) (congrArg (c :: ·))) hrest

theorem pieces_prepend {before cs first : List Char} {rest : List (List Char)}
    (hbefore : separator ∉ before) (h : pieces separator cs = first :: rest) :
    pieces separator (before ++ cs) = (before ++ first) :: rest := by
  induction before with
  | nil => exact h
  | cons c before ih =>
    obtain ⟨hc, hrest⟩ := not_or.mp (mt List.mem_cons.mpr hbefore)
    rw [List.cons_append, pieces, if_neg (Ne.symm hc), ih hrest]
    rfl

theorem map_trimmed_pieces {before after : List Char} (hseparator : isBlank separator = false)
    (hbefore : ∀ c ∈ before, isBlank c) (hafter : ∀ c ∈ after, isBlank c) (cs : List Char) :
    (pieces separator (before ++ cs ++ after)).map trimmed =
      (pieces separator cs).map trimmed := by
  have hfree : ∀ {blanks : List Char}, (∀ c ∈ blanks, isBlank c) → separator ∉ blanks :=
    fun hblanks hmem => by simp [hblanks separator hmem] at hseparator
  obtain ⟨first, rest, heq⟩ := List.exists_cons_of_ne_nil (pieces_ne_nil separator (cs ++ after))
  rw [List.append_assoc, pieces_prepend (hfree hbefore) heq, List.map_cons,
    trimmed_prepend hbefore, ← List.map_cons, ← heq]
  have hmapped : List.Forall₂ Eq ((pieces separator cs).map trimmed)
      ((pieces separator (cs ++ after)).map trimmed) := by
    rw [List.forall₂_map_left_iff, List.forall₂_map_right_iff]
    refine (pieces_append cs (hfree hafter)).imp fun piece longer hlonger => ?_
    obtain rfl | rfl := hlonger
    · rfl
    · exact (trimmed_append piece hafter).symm
  rw [List.forall₂_eq_eq_eq] at hmapped
  exact hmapped.symm

theorem map_trim_split_trim (hseparator : isBlank separator = false) (text : String) :
    (split (trim text) separator).map trim = (split text separator).map trim := by
  obtain ⟨before, after, htext, hbefore, hafter⟩ := (padded_trim text).around
  have hpieces := map_trimmed_pieces hseparator hbefore hafter (trim text).toList
  rw [← String.toList_append, ← String.toList_append, ← htext] at hpieces
  have htrim : ∀ text : String, (split text separator).map trim =
      ((pieces separator text.toList).map trimmed).map String.ofList := fun text => by
    simp [split, trim, Function.comp_def]
  rw [htrim, htrim text, hpieces]

end KeyedTable.Text
