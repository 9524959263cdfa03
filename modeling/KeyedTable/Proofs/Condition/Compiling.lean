import KeyedTable.Proofs.Condition.Resolving

namespace KeyedTable

namespace Placeholders

variable {names : SortedMap String String} {values : SortedMap String AttributeValue}

theorem get?_addNames {segments : List String} {segment : String}
    (h : segment ∈ segments ∨ names.get? (nameOf segment) = some segment) :
    (addNames names segments).get? (nameOf segment) = some segment := by
  induction segments generalizing names with
  | nil => exact h.resolve_left List.not_mem_nil
  | cons first segments ih =>
    apply ih
    by_cases hsame : first = segment
    · exact .inr (by simp [hsame])
    · have hother : nameOf first ≠ nameOf segment := fun h => hsame (nameOf_injective h)
      simpa [SortedMap.get?_insert, hother, Ne.symm hsame] using h

theorem get?_addValues {next index : Nat} (literals : List Literal) (h : index < next) :
    (addValues values next literals).get? (valueOf index) = values.get? (valueOf index) := by
  induction literals generalizing values next with
  | nil => rfl
  | cons literal literals ih =>
    have hother : valueOf next ≠ valueOf index := fun hv => by
      have := valueOf_injective hv
      omega
    rw [addValues, ih (by omega), SortedMap.get?_insert, if_neg hother]

theorem values_addValues (next : Nat) (literals : List Literal) :
    Values ⟨names, addValues values next literals⟩ next literals := by
  induction literals generalizing values next with
  | nil => trivial
  | cons literal literals ih =>
    refine ⟨?_, ih (next + 1)⟩
    exact (get?_addValues literals (Nat.lt_succ_self next)).trans (SortedMap.get?_insert_self ..)

theorem Values.addValues {placeholders : Placeholders} {index next : Nat} {own : List Literal}
    (h : placeholders.Values index own) (hnext : index + own.length ≤ next)
    (literals : List Literal) :
    Values ⟨names, addValues placeholders.values next literals⟩ index own := by
  induction own generalizing index with
  | nil => trivial
  | cons literal own ih =>
    rw [List.length_cons] at hnext
    exact ⟨(get?_addValues literals (by omega)).trans h.1, ih h.2 (by omega)⟩

end Placeholders

/-- The maps have the names and the values of the condition, and its numbers are taken. -/
structure Compiled.Carries (compiled : Compiled) (index : Nat) (c : Condition) : Prop where
  names : compiled.placeholders.Names c.segments
  values : compiled.placeholders.Values index c.literals
  next : index + c.literals.length ≤ compiled.next

namespace Condition

theorem WellFormed.carries_compile {c : Condition} (h : c.WellFormed)
    (previous : Option Compiled) : (c.compile previous).Carries (firstNumber previous) c := by
  rw [compile_eq h.isName]
  exact ⟨fun _ hsegment => Placeholders.get?_addNames (.inl hsegment),
    Placeholders.values_addValues _ c.literals, Nat.le_refl _⟩

end Condition

namespace Compiled

theorem Carries.compile {compiled : Compiled} {index : Nat} {c : Condition}
    (h : compiled.Carries index c) {following : Condition} (hfollowing : following.WellFormed) :
    (following.compile (some compiled)).Carries index c := by
  rw [Condition.compile_eq hfollowing.isName]
  exact ⟨fun segment hsegment => Placeholders.get?_addNames (.inr (h.names segment hsegment)),
    h.values.addValues h.next following.literals, Nat.le_trans h.next (Nat.le_add_right ..)⟩

theorem Carries.substitute {compiled : Compiled} {index : Nat} {c : Condition}
    (h : compiled.Carries index c) (hc : c.WellFormed) :
    ∃ text, compiled.placeholders.substitute (Piece.render (c.pieces index)).toList = some text ∧
      Token.scan text = .ok c.tokens := by
  obtain ⟨text, htext, hscan, -⟩ :=
    Piece.reads_pieces h.names h.values hc.lexical Piece.reads_nil (by simp)
  simp only [List.append_nil] at htext hscan
  exact ⟨text, htext, hscan⟩

theorem Carries.resolve {compiled : Compiled} {index : Nat} {c : Condition}
    (h : compiled.Carries index c) (hc : c.WellFormed) :
    compiled.placeholders.resolve (Piece.render (c.pieces index)) = .ok c := by
  obtain ⟨text, htext, hscan⟩ := h.substitute hc
  have hparse : Condition.parse (String.ofList text) = .ok c :=
    Condition.parse_of_scan hc.leftGrouped (by rwa [String.toList_ofList])
  simp only [Placeholders.resolve, htext, hparse]
  rfl

end Compiled

namespace Token

theorem next_of_isBlank {c : Char} (cs : List Char) (h : Text.isBlank c) :
    next c cs = .error (.invalidCharacter c) := by
  have hfree : c.toNat ≤ 32 ∨ 133 ≤ c.toNat := by
    simp only [Text.isBlank, Bool.or_eq_true, Bool.and_eq_true, decide_eq_true_eq,
      beq_iff_eq] at h
    omega
  have hdigit : c.isDigit = false := by
    cases hdigit : c.isDigit with
    | false => rfl
    | true =>
      have hrange : 48 ≤ c.toNat ∧ c.toNat ≤ 57 := Char.isDigit_iff_toNat.mp hdigit
      omega
  have hword : beginsWord c = false := by
    cases hword : beginsWord c with
    | false => rfl
    | true =>
      obtain hrange | hrange | rfl := beginsWord_iff.mp hword
      · omega
      · omega
      · exact absurd hfree (by decide)
  unfold next
  split
  case h_13 => simp [hdigit, hword]
  all_goals exact absurd h (by decide)

theorem eq_nil_of_scan_blank {cs : List Char} {ts : List Token} (hcs : ∀ c ∈ cs, Text.isBlank c)
    (h : scan cs = .ok ts) : ts = [] := by
  induction cs with
  | nil =>
    rw [scan] at h
    exact (Except.ok.inj h).symm
  | cons c cs ih =>
    rw [List.forall_mem_cons] at hcs
    cases hb : isBlank c with
    | true => exact ih hcs.2 (scan_of_isBlank cs hb ▸ h)
    | false =>
      rw [scan_of_error hb (next_of_isBlank cs hcs.1)] at h
      cases h

end Token

theorem Condition.isBlankText_of_parse {text : String} {c : Condition} (h : parse text = .ok c) :
    isBlankText text = false := by
  cases hblank : isBlankText text with
  | false => rfl
  | true =>
    unfold parse at h
    cases hscan : Token.scan text.toList with
    | error fault => simp [hscan, bind, Except.bind] at h
    | ok tokens =>
      obtain rfl := Token.eq_nil_of_scan_blank (List.all_eq_true.mp hblank) hscan
      simp only [hscan, bind, Except.bind] at h
      cases h

theorem compileKey_eq_ok_iff {text : String} {previous : Option Compiled} {compiled : Compiled} :
    compileKey text previous = .ok compiled ↔
      ∃ c, Condition.parse text = .ok c ∧ c.compile previous = compiled := by
  constructor
  · intro h
    unfold compileKey at h
    split at h
    · cases h
    · cases hparse : Condition.parse text with
      | error fault => rw [hparse] at h; cases h
      | ok c =>
        rw [hparse] at h
        exact ⟨c, rfl, Except.ok.inj h⟩
  · rintro ⟨c, hparse, hc⟩
    simp [compileKey, Condition.isBlankText_of_parse hparse, hparse, Except.map, hc]

theorem compileFilter_eq_ok_iff {text : String} {previous : Option Compiled}
    {compiled : Compiled} :
    compileFilter (some text) previous = .ok (some compiled) ↔
      ∃ c, Condition.parse text = .ok c ∧ c.compile previous = compiled := by
  constructor
  · intro h
    simp only [compileFilter] at h
    split at h
    · cases h
    · cases hparse : Condition.parse text with
      | error fault => rw [hparse] at h; cases h
      | ok c =>
        rw [hparse] at h
        exact ⟨c, rfl, Option.some.inj (Except.ok.inj h)⟩
  · rintro ⟨c, hparse, hc⟩
    simp [compileFilter, Condition.isBlankText_of_parse hparse, hparse, Except.map, hc]

/-- Texts that are compiled one after the other, each going on with the result before it. -/
inductive CompiledChain : Option Compiled → List String → List Compiled → Prop
  | nil {previous} : CompiledChain previous [] []
  | key {previous text compiled texts rest} : compileKey text previous = .ok compiled →
      CompiledChain (some compiled) texts rest →
      CompiledChain previous (text :: texts) (compiled :: rest)
  | filter {previous text compiled texts rest} :
      compileFilter (some text) previous = .ok (some compiled) →
      CompiledChain (some compiled) texts rest →
      CompiledChain previous (text :: texts) (compiled :: rest)

/-- What a path goes on with is never read as the argument of a function. -/
theorem Path.head?_steps_ne (segments : List String) :
    (segments.flatMap fun segment => [Token.dot, .identifier segment]).head? ≠ some .lparen := by
  cases segments <;> simp

namespace CompiledChain

variable {previous : Option Compiled} {texts : List String} {compiled : List Compiled}

theorem of_parse {text : String} {rest : List Compiled} {c : Condition}
    (hparse : Condition.parse text = .ok c)
    (h : CompiledChain (some (c.compile previous)) texts rest) :
    CompiledChain previous (text :: texts) (c.compile previous :: rest) :=
  .key (compileKey_eq_ok_iff.mpr ⟨c, hparse, rfl⟩) h

theorem cases_cons {text : String} (h : CompiledChain previous (text :: texts) compiled) :
    ∃ c rest, Condition.parse text = .ok c ∧ compiled = c.compile previous :: rest ∧
      CompiledChain (some (c.compile previous)) texts rest := by
  cases h with
  | key hown hrest =>
    obtain ⟨c, hparse, rfl⟩ := compileKey_eq_ok_iff.mp hown
    exact ⟨c, _, hparse, rfl, hrest⟩
  | filter hown hrest =>
    obtain ⟨c, hparse, rfl⟩ := compileFilter_eq_ok_iff.mp hown
    exact ⟨c, _, hparse, rfl, hrest⟩

theorem carries_last {first : Compiled} (h : CompiledChain (some first) texts compiled)
    {index : Nat} {c : Condition} (hc : first.Carries index c) :
    (compiled.getLast?.getD first).Carries index c := by
  induction texts generalizing first compiled with
  | nil =>
    cases h
    exact hc
  | cons text texts ih =>
    obtain ⟨following, rest, hparse, rfl, hrest⟩ := h.cases_cons
    have hkept := hc.compile (Condition.wellFormed_of_parse hparse)
    simpa [List.getLast?_cons] using ih hrest hkept

theorem carries (h : CompiledChain previous texts compiled) {i : Nat} {text : String}
    (htext : texts[i]? = some text) :
    ∃ c last, Condition.parse text = .ok c ∧
      compiled[i]? = some (c.compile ((compiled.take i).getLast?.or previous)) ∧
      compiled.getLast? = some last ∧
      last.Carries (Condition.firstNumber ((compiled.take i).getLast?.or previous)) c := by
  induction texts generalizing previous compiled i with
  | nil => cases htext
  | cons first texts ih =>
    obtain ⟨own, rest, hparse, rfl, hrest⟩ := h.cases_cons
    cases i with
    | zero =>
      obtain rfl := Option.some.inj htext
      refine ⟨own, _, hparse, rfl, List.getLast?_cons, ?_⟩
      exact carries_last hrest ((Condition.wellFormed_of_parse hparse).carries_compile previous)
    | succ i =>
      obtain ⟨c, last, hc, hown, hlast, hcarries⟩ := ih hrest htext
      have hbefore : ((own.compile previous :: rest).take (i + 1)).getLast?.or previous =
          (rest.take i).getLast?.or (some (own.compile previous)) := by
        rw [List.take_succ_cons, List.getLast?_cons]
        cases (rest.take i).getLast? <;> rfl
      rw [hbefore]
      exact ⟨c, last, hc, hown, by simp [List.getLast?_cons, hlast], hcarries⟩

/-- Under the maps of the last result every expression of the chain reads back as its own text, and
what it reads back to is compiled to the same result. -/
theorem reads_back (h : CompiledChain none texts compiled) {i : Nat} (hi : i < texts.length) :
    ∃ own last text c, compiled[i]? = some own ∧ compiled.getLast? = some last ∧
      last.placeholders.substitute own.expression.toList = some text ∧
      Condition.parse texts[i] = .ok c ∧ Condition.parse (String.ofList text) = .ok c ∧
      last.placeholders.resolve own.expression = .ok c ∧
      compileFilter (some (String.ofList text)) (compiled.take i).getLast? = .ok (some own) ∧
      compileKey (String.ofList text) (compiled.take i).getLast? = .ok own := by
  obtain ⟨c, last, hparse, hown, hlast, hcarries⟩ := h.carries (List.getElem?_eq_getElem hi)
  have hwell := Condition.wellFormed_of_parse hparse
  obtain ⟨text, htext, hscan⟩ := hcarries.substitute hwell
  have hagain : Condition.parse (String.ofList text) = .ok c :=
    Condition.parse_of_scan hwell.leftGrouped (by rwa [String.toList_ofList])
  have hresolve := hcarries.resolve hwell
  rw [← hwell.expression_compile] at htext hresolve
  rw [Option.or_none] at hown htext hresolve
  exact ⟨_, last, text, c, hown, hlast, htext, hparse, hagain, hresolve,
    compileFilter_eq_ok_iff.mpr ⟨c, hagain, rfl⟩, compileKey_eq_ok_iff.mpr ⟨c, hagain, rfl⟩⟩

theorem reads_back_shared : ∃ compiled : List Compiled,
    CompiledChain none ["id = 1", "size(a.b) > 2 or begins_with(id, \"x\")"] compiled ∧
      ∃ own last text c, compiled[1]? = some own ∧ compiled.getLast? = some last ∧
        last.placeholders.substitute own.expression.toList = some text ∧
        Condition.parse (String.ofList text) = .ok c ∧
        compileFilter (some (String.ofList text)) (compiled.take 1).getLast? = .ok (some own) := by
  have hkey : Condition.parse "id = 1" = .ok (.compare ⟨"id", []⟩ .equal (.number "1")) := by
    with_unfolding_all rfl
  have hfilter : Condition.parse "size(a.b) > 2 or begins_with(id, \"x\")" =
      .ok (.join .or (.size ⟨"a", ["b"]⟩ .greater (.number "2"))
        (.feature .beginsWith ⟨"id", []⟩ (.string "x"))) := by
    with_unfolding_all rfl
  have hchain : CompiledChain none _ _ := of_parse hkey (of_parse hfilter .nil)
  obtain ⟨own, last, text, c, hown, hlast, htext, -, hparse, -, hagain, -⟩ :=
    reads_back hchain (i := 1) (by decide)
  exact ⟨_, hchain, own, last, text, c, hown, hlast, htext, hparse, hagain⟩

end CompiledChain

end KeyedTable
