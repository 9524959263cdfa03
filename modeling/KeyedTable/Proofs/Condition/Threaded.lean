import KeyedTable.Gateway.Basic
import KeyedTable.Proofs.Condition.Occurring

namespace KeyedTable

namespace Placeholders

def NamesOf (names : SortedMap String String) (segments : List String) : Prop :=
  ∀ placeholder segment, names.get? placeholder = some segment ↔
    segment ∈ segments ∧ placeholder = nameOf segment

def ValuesOf (values : SortedMap String AttributeValue) (literals : List Literal) : Prop :=
  ∀ placeholder value, values.get? placeholder = some value ↔
    ∃ k literal, literals[k]? = some literal ∧ placeholder = valueOf (k + 1) ∧
      value = literal.toValue

def mentioned (expressions : List String) : List String :=
  expressions.flatMap fun expression => occurring expression.toList

def UsedBy (placeholders : Placeholders) (expressions : List String) : Prop :=
  ∀ placeholder,
    (placeholders.names.contains placeholder ↔
      placeholder ∈ mentioned expressions ∧ placeholder.toList.head? = some '#') ∧
    (placeholders.values.contains placeholder ↔
      placeholder ∈ mentioned expressions ∧ placeholder.toList.head? = some ':')

def Within (before after : Placeholders) : Prop :=
  (∀ placeholder segment, before.names.get? placeholder = some segment →
    after.names.get? placeholder = some segment) ∧
  ∀ placeholder value, before.values.get? placeholder = some value →
    after.values.get? placeholder = some value

theorem NamesOf.insert {names : SortedMap String String} {segments : List String}
    (h : NamesOf names segments) (segment : String) :
    NamesOf (names.insert (nameOf segment) segment) (segments ++ [segment]) := by
  intro placeholder other
  rw [SortedMap.get?_insert, List.mem_append, List.mem_singleton]
  split
  next heq =>
    rw [Option.some.injEq, ← heq]
    constructor
    · rintro rfl
      exact ⟨.inr rfl, rfl⟩
    · rintro ⟨-, hsame⟩
      exact nameOf_injective hsame
  next hne =>
    rw [h]
    constructor
    · rintro ⟨hmem, hplaceholder⟩
      exact ⟨.inl hmem, hplaceholder⟩
    · rintro ⟨hmem | rfl, hplaceholder⟩
      · exact ⟨hmem, hplaceholder⟩
      · exact absurd hplaceholder.symm hne

theorem NamesOf.addNames {names : SortedMap String String} {segments : List String}
    (h : NamesOf names segments) (others : List String) :
    NamesOf (addNames names others) (segments ++ others) := by
  induction others generalizing names segments with
  | nil => rwa [List.append_nil]
  | cons other others ih =>
    have := ih (h.insert other)
    rwa [List.append_assoc] at this

theorem ValuesOf.insert {values : SortedMap String AttributeValue} {literals : List Literal}
    (h : ValuesOf values literals) (literal : Literal) :
    ValuesOf (values.insert (valueOf (literals.length + 1)) literal.toValue)
      (literals ++ [literal]) := by
  intro placeholder value
  rw [SortedMap.get?_insert]
  split
  next heq =>
    rw [Option.some.injEq, ← heq]
    constructor
    · rintro rfl
      exact ⟨literals.length, literal, by simp, rfl, rfl⟩
    · rintro ⟨k, other, hother, hsame, rfl⟩
      have hk : k = literals.length := by
        have := valueOf_injective hsame
        omega
      have hlast : literal = other := by simpa [hk] using hother
      rw [hlast]
  next hne =>
    rw [h]
    constructor
    · rintro ⟨k, other, hother, hplaceholder, hvalue⟩
      have hk := (List.getElem?_eq_some_iff.mp hother).1
      exact ⟨k, other, by rwa [List.getElem?_append_left hk], hplaceholder, hvalue⟩
    · rintro ⟨k, other, hother, rfl, rfl⟩
      have hk : k < literals.length := by
        have hbound := (List.getElem?_eq_some_iff.mp hother).1
        rw [List.length_append, List.length_singleton] at hbound
        have : literals.length ≠ k := fun heq => hne (by rw [heq])
        omega
      exact ⟨k, other, by rwa [List.getElem?_append_left hk] at hother, rfl, rfl⟩

theorem ValuesOf.addValues {values : SortedMap String AttributeValue} {literals : List Literal}
    (h : ValuesOf values literals) (others : List Literal) :
    ValuesOf (addValues values (literals.length + 1) others) (literals ++ others) := by
  induction others generalizing values literals with
  | nil => rwa [List.append_nil]
  | cons other others ih =>
    have := ih (h.insert other)
    rwa [List.length_append, List.append_assoc] at this

theorem NamesOf.mono {names more : SortedMap String String} {segments others : List String}
    (h : NamesOf names segments) (hmore : NamesOf more (segments ++ others)) :
    ∀ placeholder segment, names.get? placeholder = some segment →
      more.get? placeholder = some segment := by
  intro placeholder segment hget
  obtain ⟨hmem, hplaceholder⟩ := (h placeholder segment).mp hget
  exact (hmore placeholder segment).mpr ⟨List.mem_append_left others hmem, hplaceholder⟩

theorem ValuesOf.mono {values more : SortedMap String AttributeValue}
    {literals others : List Literal} (h : ValuesOf values literals)
    (hmore : ValuesOf more (literals ++ others)) :
    ∀ placeholder value, values.get? placeholder = some value →
      more.get? placeholder = some value := by
  intro placeholder value hget
  obtain ⟨k, literal, hliteral, hrest⟩ := (h placeholder value).mp hget
  have hk := (List.getElem?_eq_some_iff.mp hliteral).1
  exact (hmore placeholder value).mpr
    ⟨k, literal, by rwa [List.getElem?_append_left hk], hrest⟩

theorem exists_valueOf_add {placeholder : String} {m n : Nat} :
    (∃ k < m + n, placeholder = valueOf (k + 1)) ↔
      (∃ k < m, placeholder = valueOf (k + 1)) ∨ ∃ k < n, placeholder = valueOf (m + 1 + k) := by
  constructor
  · rintro ⟨k, hk, rfl⟩
    by_cases hold : k < m
    · exact .inl ⟨k, hold, rfl⟩
    · exact .inr ⟨k - m, by omega, congrArg _ (by omega)⟩
  · rintro (⟨k, hk, rfl⟩ | ⟨k, hk, rfl⟩)
    · exact ⟨k, by omega, rfl⟩
    · exact ⟨m + k, by omega, congrArg _ (by omega)⟩

theorem Within.trans {before between after : Placeholders} (h : before.Within between)
    (hrest : between.Within after) : before.Within after :=
  ⟨fun _ _ hget => hrest.1 _ _ (h.1 _ _ hget), fun _ _ hget => hrest.2 _ _ (h.2 _ _ hget)⟩

end Placeholders

/-- Texts that are compiled one after the other, each going on with the last expression there is. A
filter that is absent or blank gives none. -/
inductive Threaded : List String → List Compiled → Prop
  | start : Threaded [] []
  | key {texts compiled text next} : Threaded texts compiled →
      compileKey text compiled.getLast? = .ok next →
      Threaded (texts ++ [text]) (compiled ++ [next])
  | filter {texts compiled text next} : Threaded texts compiled →
      compileFilter (some text) compiled.getLast? = .ok (some next) →
      Threaded (texts ++ [text]) (compiled ++ [next])
  | blank {texts compiled text} : Threaded texts compiled →
      compileFilter text compiled.getLast? = .ok none → Threaded (texts ++ text.toList) compiled

/-- The maps after the last of the texts, and how far the numbers have come. -/
structure Compiled.Exact (texts : List String) (compiled : List Compiled) : Prop where
  names : Placeholders.NamesOf (placeholdersOf compiled.getLast?).names (texts.flatMap textNames)
  values : Placeholders.ValuesOf (placeholdersOf compiled.getLast?).values
    (texts.flatMap textLiterals)
  next : Condition.firstNumber compiled.getLast? = (texts.flatMap textLiterals).length + 1
  kept : ∀ earlier ∈ compiled, earlier.placeholders.Within (placeholdersOf compiled.getLast?)
  mentioned : ∀ placeholder,
    placeholder ∈ Placeholders.mentioned (compiled.map Compiled.expression) ↔
      (∃ segment ∈ texts.flatMap textNames, placeholder = Placeholders.nameOf segment) ∨
        ∃ k < (texts.flatMap textLiterals).length, placeholder = Placeholders.valueOf (k + 1)

namespace Compiled.Exact

variable {texts : List String} {compiled : List Compiled}

theorem start : Exact [] [] where
  names placeholder segment := by simp [placeholdersOf, Placeholders.empty]
  values placeholder value := by simp [placeholdersOf, Placeholders.empty]
  next := rfl
  kept _ hmem := absurd hmem List.not_mem_nil
  mentioned := by simp [Placeholders.mentioned]

theorem snoc (h : Exact texts compiled) {text : String} {c : Condition}
    (hparse : Condition.parse text = .ok c) :
    Exact (texts ++ [text]) (compiled ++ [c.compile compiled.getLast?]) := by
  obtain ⟨hliterals, hnames⟩ := Condition.text_of_parse hparse
  have hwell := Condition.wellFormed_of_parse hparse
  have hlast : (compiled ++ [c.compile compiled.getLast?]).getLast? =
      some (c.compile compiled.getLast?) := List.getLast?_concat
  have hnames : (texts ++ [text]).flatMap textNames = texts.flatMap textNames ++ c.segments := by
    simp [hnames]
  have hliterals : (texts ++ [text]).flatMap textLiterals =
      texts.flatMap textLiterals ++ c.literals := by
    simp [hliterals]
  have hcompile := Condition.compile_eq hwell.isName compiled.getLast?
  have hnamesOf : Placeholders.NamesOf (c.compile compiled.getLast?).placeholders.names
      (texts.flatMap textNames ++ c.segments) := by
    rw [hcompile]
    exact h.names.addNames c.segments
  have hvaluesOf : Placeholders.ValuesOf (c.compile compiled.getLast?).placeholders.values
      (texts.flatMap textLiterals ++ c.literals) := by
    rw [hcompile, h.next]
    exact h.values.addValues c.literals
  have hwithin : (placeholdersOf compiled.getLast?).Within
      (c.compile compiled.getLast?).placeholders :=
    ⟨h.names.mono hnamesOf, h.values.mono hvaluesOf⟩
  have hown : Placeholders.mentioned
      ((compiled ++ [c.compile compiled.getLast?]).map Compiled.expression) =
        Placeholders.mentioned (compiled.map Compiled.expression) ++ Placeholders.occurring
          (Piece.render (c.pieces (Condition.firstNumber compiled.getLast?))).toList := by
    rw [← hwell.expression_compile, Placeholders.mentioned, List.map_append, List.flatMap_append]
    exact congrArg _ (List.append_nil _)
  refine ⟨?_, ?_, ?_, ?_, fun placeholder => ?_⟩
  · rw [hlast, hnames]
    exact hnamesOf
  · rw [hlast, hliterals]
    exact hvaluesOf
  · have hnext : Condition.firstNumber (some (c.compile compiled.getLast?)) =
        Condition.firstNumber compiled.getLast? + c.literals.length := by
      rw [hcompile]
      rfl
    rw [hlast, hliterals, hnext, h.next, List.length_append]
    omega
  · rw [hlast, List.forall_mem_append, List.forall_mem_singleton]
    exact ⟨fun earlier hmem => (h.kept earlier hmem).trans hwithin, fun _ _ hget => hget,
      fun _ _ hget => hget⟩
  · simp only [hown, hnames, hliterals, List.length_append, List.mem_append, or_and_right,
      exists_or, h.mentioned, Condition.mem_occurring_iff hwell, h.next,
      Placeholders.exists_valueOf_add]
    exact or_or_or_comm

theorem blank (h : Exact texts compiled) {text : Option String}
    (htext : compileFilter text compiled.getLast? = .ok none) :
    Exact (texts ++ text.toList) compiled := by
  have hnothing : text.toList.flatMap textNames = [] ∧ text.toList.flatMap textLiterals = [] := by
    cases text with
    | none => exact ⟨rfl, rfl⟩
    | some text =>
      have hblank : isBlankText text := by
        simp only [compileFilter] at htext
        split at htext
        next hblank => exact hblank
        next => cases hparse : Condition.parse text <;> rw [hparse] at htext <;> cases htext
      have htokens := textTokens_of_isBlank hblank
      simp [textNames, textLiterals, htokens, Token.names, Token.literals]
  have hnames : (texts ++ text.toList).flatMap textNames = texts.flatMap textNames := by
    rw [List.flatMap_append, hnothing.1, List.append_nil]
  have hliterals : (texts ++ text.toList).flatMap textLiterals = texts.flatMap textLiterals := by
    rw [List.flatMap_append, hnothing.2, List.append_nil]
  exact ⟨hnames ▸ h.names, hliterals ▸ h.values, hliterals ▸ h.next, h.kept,
    hnames ▸ hliterals ▸ h.mentioned⟩

theorem usedBy (h : Exact texts compiled) :
    (placeholdersOf compiled.getLast?).UsedBy (compiled.map Compiled.expression) := by
  intro placeholder
  simp only [h.mentioned, SortedMap.contains, Option.isSome_iff_exists]
  constructor
  · constructor
    · rintro ⟨segment, hsegment⟩
      obtain ⟨hmem, rfl⟩ := (h.names _ _).mp hsegment
      exact ⟨.inl ⟨segment, hmem, rfl⟩, by rw [Placeholders.toList_nameOf]; rfl⟩
    · rintro ⟨⟨segment, hmem, rfl⟩ | ⟨k, -, rfl⟩, hhead⟩
      · exact ⟨segment, (h.names _ _).mpr ⟨hmem, rfl⟩⟩
      · rw [Placeholders.toList_valueOf] at hhead
        cases hhead
  · constructor
    · rintro ⟨value, hvalue⟩
      obtain ⟨k, literal, hliteral, rfl, rfl⟩ := (h.values _ _).mp hvalue
      exact ⟨.inr ⟨k, (List.getElem?_eq_some_iff.mp hliteral).1, rfl⟩,
        by rw [Placeholders.toList_valueOf]; rfl⟩
    · rintro ⟨⟨segment, -, rfl⟩ | ⟨k, hk, rfl⟩, hhead⟩
      · rw [Placeholders.toList_nameOf] at hhead
        cases hhead
      · exact ⟨_, (h.values _ _).mpr ⟨k, _, List.getElem?_eq_getElem hk, rfl, rfl⟩⟩

end Compiled.Exact

theorem Threaded.exact {texts : List String} {compiled : List Compiled}
    (h : Threaded texts compiled) : Compiled.Exact texts compiled := by
  induction h with
  | start => exact .start
  | key _ hkey ih =>
    obtain ⟨c, hparse, rfl⟩ := compileKey_eq_ok_iff.mp hkey
    exact ih.snoc hparse
  | filter _ hfilter ih =>
    obtain ⟨c, hparse, rfl⟩ := compileFilter_eq_ok_iff.mp hfilter
    exact ih.snoc hparse
  | blank _ hblank ih => exact ih.blank hblank

end KeyedTable
