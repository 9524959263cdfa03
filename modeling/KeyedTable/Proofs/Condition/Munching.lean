import KeyedTable.Proofs.Condition.Lexing

namespace KeyedTable.Token

def Spells : Token → List Char → Prop
  | .keyword word, lexeme => lexeme.map Char.toLower = word.spelling.toList
  | token, lexeme => token.Lexical ∧ lexeme = token.spelling.toList

/-- A lexeme of the token stands before the rest, and no longer lexeme does. -/
structure Longest (token : Token) (lexeme rest : List Char) : Prop where
  spells : token.Spells lexeme
  longest : ∀ other longer, Spells other longer → longer <+: lexeme ++ rest →
    longer.length ≤ lexeme.length

/-- The text begins with these tokens, cut as long as can be and with blanks before them, and this
is left of it. -/
inductive Munched : List Char → List Token → List Char → Prop
  | nil (cs) : Munched cs [] cs
  | blank {c cs tokens rest} : isBlank c → Munched cs tokens rest → Munched (c :: cs) tokens rest
  | lexeme {token lexeme cs tokens rest} : Longest token lexeme cs → Munched cs tokens rest →
      Munched (lexeme ++ cs) (token :: tokens) rest

/-- Tokens written out, with a blank between two of them and any blanks around. -/
inductive Spaced : List Token → List Char → Prop
  | nil : Spaced [] []
  | blank {c tokens cs} : isBlank c → Spaced tokens cs → Spaced tokens (c :: cs)
  | token {token lexeme tokens cs} : Spells token lexeme → (∀ c ∈ cs.head?, isBlank c) →
      Spaced tokens cs → Spaced (token :: tokens) (lexeme ++ cs)

def IsWord (cs : List Char) : Prop :=
  ∃ c ds, cs = c :: ds ∧ beginsWord c ∧ ∀ d ∈ ds, continuesWord d

theorem beginsWord_of_toLower {c : Char} (h : beginsWord c.toLower) : beginsWord c := by
  unfold Char.toLower at h
  split at h
  next hupper =>
    have hrange : 65 ≤ c.toNat ∧ c.toNat ≤ 90 := hupper
    exact beginsWord_iff.mpr (.inl hrange)
  next => exact h

theorem isWord_of_keyword {word : Keyword} {lexeme : List Char}
    (h : (Token.keyword word).Spells lexeme) : IsWord lexeme := by
  have hletters : ∀ c ∈ lexeme, beginsWord c := by
    intro c hc
    have hlower : c.toLower ∈ word.spelling.toList := h ▸ List.mem_map_of_mem hc
    have hall : ∀ d ∈ word.spelling.toList, beginsWord d := by
      cases word <;> exact List.all_eq_true.mp (by decide)
    exact beginsWord_of_toLower (hall _ hlower)
  cases lexeme with
  | nil => cases word <;> cases h
  | cons c cs =>
    obtain ⟨hc, hcs⟩ := List.forall_mem_cons.mp hletters
    exact ⟨c, cs, rfl, hc, fun d hd => continuesWord_of_beginsWord (hcs d hd)⟩

theorem ofWord_of_lowercase {text : String} {word : Keyword}
    (h : FunctionName.lowercase text = word.spelling) : ofWord text = .keyword word := by
  have htrue : text ≠ "true" := by
    rintro rfl
    cases word <;> exact absurd h (by decide)
  have hfalse : text ≠ "false" := by
    rintro rfl
    cases word <;> exact absurd h (by decide)
  cases word <;> simp [ofWord, htrue, hfalse, h, Keyword.spelling]

theorem spells_ofWord {word : String} (h : IsWord word.toList) :
    (ofWord word).Spells word.toList := by
  by_cases htruth : word ∈ ["true", "false"]
  · simp only [List.mem_cons, List.not_mem_nil, or_false] at htruth
    obtain rfl | rfl := htruth <;> exact ⟨trivial, rfl⟩
  by_cases hkeyword : ∃ keyword : Keyword, FunctionName.lowercase word = keyword.spelling
  · obtain ⟨keyword, hlower⟩ := hkeyword
    rw [ofWord_of_lowercase hlower, Spells, ← hlower, FunctionName.lowercase, String.toList_ofList]
  · have hname : IsName word := by
      refine ⟨h, htruth, fun hmem => hkeyword ?_⟩
      simp only [List.mem_cons, List.not_mem_nil, or_false] at hmem
      obtain hlower | hlower | hlower | hlower := hmem
      · exact ⟨.and, hlower⟩
      · exact ⟨.or, hlower⟩
      · exact ⟨.between, hlower⟩
      · exact ⟨.among, hlower⟩
    rw [ofWord_of_isName hname]
    exact ⟨hname, rfl⟩

theorem length_fraction_le (cs : List Char) : (fraction cs).2.length ≤ cs.length := by
  have h := congrArg List.length (fraction_append cs)
  rw [List.length_append] at h
  omega

theorem length_exponent_le (cs : List Char) : (exponent cs).2.length ≤ cs.length := by
  have h := congrArg List.length (exponent_append cs)
  rw [List.length_append] at h
  omega

theorem IsDigits.append {cs digits : List Char} (h : IsDigits cs)
    (hdigits : digits.all Char.isDigit) : IsDigits (cs ++ digits) :=
  ⟨List.append_ne_nil_of_left_ne_nil h.1 digits,
    List.forall_mem_append.mpr ⟨h.2, List.all_eq_true.mp hdigits⟩⟩

theorem IsMagnitude.append {cs digits : List Char} (h : IsMagnitude cs)
    (hdigits : digits.all Char.isDigit) : IsMagnitude (cs ++ digits) := by
  obtain ⟨whole, part, power, hwhole, hpart, hpower, rfl⟩ := h
  obtain rfl | ⟨e, sign, ds, he, hsign, hds, rfl⟩ := hpower
  · obtain rfl | ⟨ds, hds, rfl⟩ := hpart
    · exact ⟨whole ++ digits, [], [], hwhole.append hdigits, .inl rfl, .inl rfl, by simp⟩
    · exact ⟨whole, '.' :: (ds ++ digits), [], hwhole, .inr ⟨_, hds.append hdigits, rfl⟩, .inl rfl,
        by simp⟩
  · exact ⟨whole, part, e :: (sign ++ (ds ++ digits)), hwhole, hpart,
      .inr ⟨e, sign, _, he, hsign, hds.append hdigits, rfl⟩, by simp⟩

theorem IsExponent.head_append {power rest : List Char} (h : IsExponent power)
    (hrest : ∀ c ∈ rest.head?, c.isDigit = false) :
    ∀ c ∈ (power ++ rest).head?, c.isDigit = false := by
  obtain rfl | ⟨e, sign, digits, rfl | rfl, -, -, rfl⟩ := h
  · exact hrest
  · simp
  · simp

theorem IsExponent.length_exponent_le {power rest : List Char} (h : IsExponent power)
    (hrest : ∀ c ∈ rest.head?, c.isDigit = false) :
    (exponent (power ++ rest)).2.length ≤ rest.length := by
  obtain rfl | ⟨e, sign, digits, he, hsign, hdigits, rfl⟩ := h
  · exact Token.length_exponent_le rest
  · exact Nat.le_of_eq <| congrArg (·.2.length) (exponent_digits he hsign hdigits hrest)

theorem length_magnitude_le_of_head {cs rest : List Char} (h : IsMagnitude cs)
    (hrest : ∀ c ∈ rest.head?, c.isDigit = false) :
    (magnitude (cs ++ rest)).2.length ≤ rest.length := by
  obtain ⟨whole, part, power, hwhole, hpart, hpower, rfl⟩ := h
  have hread : ∀ tail : List Char, (∀ c ∈ tail.head?, c.isDigit = false) →
      (magnitude (whole ++ tail)).2 = (exponent (fraction tail).2).2 := by
    intro tail htail
    simp only [magnitude, dropWhile_append_of_head hwhole.2 htail]
  have hhead := hpower.head_append hrest
  have hle := hpower.length_exponent_le hrest
  rw [List.append_assoc, List.append_assoc]
  obtain rfl | ⟨digits, hdigits, rfl⟩ := hpart
  · rw [List.nil_append, hread _ hhead]
    obtain rfl | ⟨e, sign, digits, he, hsign, hdigits, rfl⟩ := hpower
    · exact Nat.le_trans (Token.length_exponent_le _) (length_fraction_le rest)
    · have hpoint : ∀ c ∈ (e :: (sign ++ digits) ++ rest).head?, c ≠ '.' := by
        obtain rfl | rfl := he <;> simp
      rw [fraction_of_head hpoint]
      exact hle
  · rw [hread _ (by simp), List.cons_append, fraction_digits hdigits hhead]
    exact hle

theorem head_dropWhile (p : Char → Bool) (cs : List Char) :
    ∀ c ∈ (cs.dropWhile p).head?, p c = false := by
  intro c hc
  have h := List.head?_dropWhile_not p cs
  rw [hc] at h
  exact h

theorem length_magnitude_le_of_isMagnitude {cs : List Char} (h : IsMagnitude cs)
    (rest : List Char) : (magnitude (cs ++ rest)).2.length ≤ rest.length := by
  -- The digits that follow belong to the number as well.
  have hmore := h.append (List.all_takeWhile (p := Char.isDigit) (l := rest))
  have hle := length_magnitude_le_of_head hmore (head_dropWhile Char.isDigit rest)
  rw [List.append_assoc, List.takeWhile_append_dropWhile] at hle
  exact Nat.le_trans hle (length_dropWhile_le _ rest)

def Taken (lexeme rest : List Char) : Prop :=
  ∃ c cs token left, lexeme ++ rest = c :: cs ∧ next c cs = .ok (token, left) ∧
    left.length ≤ rest.length

theorem taken_of_isWord {lexeme : List Char} (h : IsWord lexeme) (rest : List Char) :
    Taken lexeme rest := by
  obtain ⟨c, cs, rfl, hc, hcs⟩ := h
  have hmore : ∀ d ∈ cs ++ rest.takeWhile continuesWord, continuesWord d :=
    List.forall_mem_append.mpr ⟨hcs, List.all_eq_true.mp List.all_takeWhile⟩
  have hnext := next_word hc hmore (head_dropWhile continuesWord rest)
  rw [List.append_assoc, List.takeWhile_append_dropWhile] at hnext
  exact ⟨c, cs ++ rest, _, _, rfl, hnext, length_dropWhile_le _ rest⟩

theorem taken_of_isNumber {text : String} (h : IsNumber text) (rest : List Char) :
    Taken text.toList rest := by
  obtain h | ⟨cs, h, htext⟩ := h
  · obtain ⟨c, cs, hcs, hc⟩ := exists_digit_of_isMagnitude h
    have hle := length_magnitude_le_of_isMagnitude h rest
    rw [hcs] at hle ⊢
    exact ⟨c, cs ++ rest, _, _, rfl, next_digit hc, hle⟩
  · obtain ⟨d, ds, hcs, hd⟩ := exists_digit_of_isMagnitude h
    have hbegins : beginsWithDigit (cs ++ rest) := by simp [beginsWithDigit, hcs, hd]
    have hnext : next '-' (cs ++ rest) =
        .ok (ofNumber ('-' :: (magnitude (cs ++ rest)).1), (magnitude (cs ++ rest)).2) := by
      simp only [next, hbegins, if_true]
    rw [htext]
    exact ⟨'-', cs ++ rest, _, _, rfl, hnext, length_magnitude_le_of_isMagnitude h rest⟩

theorem taken_of_comparator (sign : Comparator) (rest : List Char) :
    Taken sign.spelling.toList rest := by
  cases sign with
  | less =>
    have hnext : ∃ read, next '<' rest = .ok read := by
      unfold next
      split <;> simp_all
    obtain ⟨⟨token, left⟩, hread⟩ := hnext
    exact ⟨'<', rest, token, left, rfl, hread, length_next_le hread⟩
  | greater =>
    have hnext : ∃ read, next '>' rest = .ok read := by
      unfold next
      split <;> simp_all
    obtain ⟨⟨token, left⟩, hread⟩ := hnext
    exact ⟨'>', rest, token, left, rfl, hread, length_next_le hread⟩
  | equal => exact ⟨'=', rest, .comparator .equal, rest, rfl, rfl, Nat.le_refl _⟩
  | unequal => exact ⟨'<', '>' :: rest, .comparator .unequal, rest, rfl, rfl, Nat.le_refl _⟩
  | atMost => exact ⟨'<', '=' :: rest, .comparator .atMost, rest, rfl, rfl, Nat.le_refl _⟩
  | atLeast => exact ⟨'>', '=' :: rest, .comparator .atLeast, rest, rfl, rfl, Nat.le_refl _⟩

theorem taken_of_spells {token : Token} {lexeme : List Char} (h : token.Spells lexeme)
    (rest : List Char) : Taken lexeme rest := by
  cases token with
  | keyword word => exact taken_of_isWord (isWord_of_keyword h) rest
  | identifier name =>
    obtain ⟨⟨hword, -, -⟩, rfl⟩ := h
    exact taken_of_isWord hword rest
  | literal value =>
    cases value with
    | string text =>
      obtain ⟨htext, rfl⟩ := h
      have hspelling : (Literal.string text).spelling.toList ++ rest =
          '"' :: (text.toList ++ '"' :: rest) := by
        simp [Literal.spelling]
      exact ⟨'"', _, _, rest, hspelling, next_string rest htext, Nat.le_refl _⟩
    | number text =>
      obtain ⟨htext, rfl⟩ := h
      exact taken_of_isNumber htext rest
    | boolean value =>
      obtain ⟨-, rfl⟩ := h
      refine taken_of_isWord ?_ rest
      cases value <;> exact ⟨_, _, rfl, by decide, List.all_eq_true.mp (by decide)⟩
  | comparator sign =>
    obtain ⟨-, rfl⟩ := h
    exact taken_of_comparator sign rest
  | dot =>
    obtain ⟨-, rfl⟩ := h
    exact ⟨'.', rest, .dot, rest, rfl, rfl, Nat.le_refl _⟩
  | comma =>
    obtain ⟨-, rfl⟩ := h
    exact ⟨',', rest, .comma, rest, rfl, rfl, Nat.le_refl _⟩
  | lparen =>
    obtain ⟨-, rfl⟩ := h
    exact ⟨'(', rest, .lparen, rest, rfl, rfl, Nat.le_refl _⟩
  | rparen =>
    obtain ⟨-, rfl⟩ := h
    exact ⟨')', rest, .rparen, rest, rfl, rfl, Nat.le_refl _⟩

theorem spells_ofNumber {cs : List Char} (h : (ofNumber cs).Lexical) : (ofNumber cs).Spells cs :=
  ⟨h, String.toList_ofList.symm⟩

theorem exists_spells_of_next {c : Char} {cs rest : List Char} {token : Token}
    (h : next c cs = .ok (token, rest)) :
    ∃ lexeme, token.Spells lexeme ∧ lexeme ++ rest = c :: cs := by
  have hlexical := lexical_next h
  unfold next at h
  split at h
  case h_11 =>
    split at h
    · cases h
    next d left hdrop =>
      cases h
      -- The text ends at the first quote that is dropped.
      have hquote : d = '"' := by
        have hhead := head_dropWhile (· ≠ '"') cs d (by rw [hdrop]; rfl)
        simpa using hhead
      have happend := List.takeWhile_append_dropWhile (p := (· ≠ '"')) (l := cs)
      rw [hdrop, hquote] at happend
      refine ⟨_, ⟨hlexical, rfl⟩, ?_⟩
      simpa [spelling, Literal.spelling] using happend
  case h_12 =>
    split at h
    next =>
      cases h
      exact ⟨_, spells_ofNumber hlexical, congrArg ('-' :: ·) (magnitude_append cs)⟩
    next => cases h
  case h_13 =>
    split at h
    next =>
      cases h
      exact ⟨_, spells_ofNumber hlexical, magnitude_append (c :: cs)⟩
    next =>
      split at h
      next hw =>
        cases h
        have hword : IsWord (String.ofList (c :: cs.takeWhile continuesWord)).toList :=
          ⟨c, _, String.toList_ofList, hw, List.all_eq_true.mp List.all_takeWhile⟩
        refine ⟨_, spells_ofWord hword, ?_⟩
        rw [String.toList_ofList, List.cons_append, List.takeWhile_append_dropWhile]
      next => cases h
  all_goals
    cases h
    exact ⟨_, ⟨trivial, rfl⟩, rfl⟩

theorem scan_spells {token : Token} {lexeme rest : List Char} (h : token.Spells lexeme)
    (hrest : token.Ends rest) : scan (lexeme ++ rest) = (scan rest).map (token :: ·) := by
  cases token with
  | keyword word =>
    obtain ⟨c, cs, hlexeme, hc, hcs⟩ := isWord_of_keyword h
    have hword : (String.ofList lexeme).toList = c :: cs := by rw [String.toList_ofList, hlexeme]
    have hlower : FunctionName.lowercase (String.ofList lexeme) = word.spelling := by
      rw [FunctionName.lowercase, String.toList_ofList, h, String.ofList_toList]
    have hscan := scan_word hword hc hcs hrest
    rwa [String.toList_ofList, ofWord_of_lowercase hlower] at hscan
  | literal value =>
    cases value <;>
    · obtain ⟨hlexical, rfl⟩ := h
      exact scan_spelling hlexical hrest
  | _ =>
    obtain ⟨hlexical, rfl⟩ := h
    exact scan_spelling hlexical hrest

theorem Spells.unique {token other : Token} {lexeme : List Char} (h : token.Spells lexeme)
    (hother : other.Spells lexeme) : token = other := by
  have hends : ∀ token : Token, token.Ends [] := fun token => token.ends_of_isBlank nofun
  have htokens := (scan_spells h (hends token)).symm.trans (scan_spells hother (hends other))
  rw [scan] at htokens
  exact (List.cons.inj (Except.ok.inj htokens)).1

theorem next_eq_ok_iff {c : Char} {cs rest : List Char} {token : Token} :
    next c cs = .ok (token, rest) ↔
      ∃ lexeme, lexeme ++ rest = c :: cs ∧ Longest token lexeme rest := by
  constructor
  · intro h
    obtain ⟨lexeme, hspells, happend⟩ := exists_spells_of_next h
    refine ⟨lexeme, happend, hspells, fun other longer hlonger hstands => ?_⟩
    obtain ⟨after, hafter⟩ := hstands
    obtain ⟨d, ds, token', left, heq, hnext, hle⟩ := taken_of_spells hlonger after
    obtain ⟨rfl, rfl⟩ := List.cons.inj (heq.symm.trans (hafter.trans happend))
    rw [h] at hnext
    cases hnext
    have hlength := congrArg List.length hafter
    rw [List.length_append, List.length_append] at hlength
    omega
  · rintro ⟨lexeme, happend, hspells, hlongest⟩
    obtain ⟨d, ds, token', left, heq, hnext, hle⟩ := taken_of_spells hspells rest
    obtain ⟨rfl, rfl⟩ := List.cons.inj (heq.symm.trans happend)
    obtain ⟨lexeme', hspells', happend'⟩ := exists_spells_of_next hnext
    have hsame := happend'.trans happend.symm
    have hle' := hlongest token' lexeme' hspells' ⟨left, hsame⟩
    have hlength := congrArg List.length hsame
    rw [List.length_append, List.length_append] at hlength
    obtain ⟨rfl, rfl⟩ := List.append_inj hsame (by omega)
    rw [hnext, hspells.unique hspells']

def Stuck (cs : List Char) : Prop :=
  ∀ (token : Token) (lexeme : List Char), token.Spells lexeme → ¬ lexeme <+: cs

def faultAt (c : Char) : ExpressionFault :=
  if c = '"' then .unterminatedString else .invalidCharacter c

theorem eq_faultAt_of_next {c : Char} {cs : List Char} {fault : ExpressionFault}
    (h : next c cs = .error fault) : fault = faultAt c := by
  unfold next at h
  split at h
  case h_11 =>
    split at h
    · cases h
      rfl
    · cases h
  case h_12 =>
    split at h
    · cases h
    · cases h
      rfl
  case h_13 hquote _ _ _ _ =>
    split at h
    · cases h
    · split at h
      · cases h
      · cases h
        exact (if_neg hquote).symm
  all_goals cases h

theorem next_eq_error_iff {c : Char} {cs : List Char} {fault : ExpressionFault} :
    next c cs = .error fault ↔ Stuck (c :: cs) ∧ fault = faultAt c := by
  constructor
  · intro h
    refine ⟨?_, eq_faultAt_of_next h⟩
    rintro token lexeme hspells ⟨after, hafter⟩
    obtain ⟨d, ds, token', left, heq, hnext, -⟩ := taken_of_spells hspells after
    obtain ⟨rfl, rfl⟩ := List.cons.inj (heq.symm.trans hafter)
    rw [h] at hnext
    cases hnext
  · rintro ⟨hstuck, rfl⟩
    cases hnext : next c cs with
    | error fault => rw [eq_faultAt_of_next hnext]
    | ok read =>
      obtain ⟨lexeme, hspells, happend⟩ := exists_spells_of_next hnext
      exact absurd ⟨read.2, happend⟩ (hstuck read.1 lexeme hspells)

theorem isBlank_eq_false_of_next {c : Char} {cs rest : List Char} {token : Token}
    (h : next c cs = .ok (token, rest)) : isBlank c = false := by
  cases hblank : isBlank c with
  | false => rfl
  | true =>
    simp only [isBlank, Bool.or_eq_true, decide_eq_true_eq] at hblank
    obtain (((rfl | rfl) | rfl) | rfl) | rfl := hblank <;> cases h

theorem Munched.scan_eq {cs rest : List Char} {tokens : List Token} (h : Munched cs tokens rest) :
    scan cs = (scan rest).map (tokens ++ ·) := by
  induction h with
  | nil cs => cases scan cs <;> rfl
  | blank hblank _ ih => rw [scan_of_isBlank _ hblank, ih]
  | @lexeme token lexeme cs tokens rest hlongest _ ih =>
    obtain ⟨c, ds, -, -, heq, -, -⟩ := taken_of_spells hlongest.spells cs
    have hnext := next_eq_ok_iff.mpr ⟨lexeme, heq, hlongest⟩
    rw [heq, scan_of_next (isBlank_eq_false_of_next hnext) hnext, ih]
    cases scan rest <;> rfl

theorem exists_munched (cs : List Char) :
    (∃ tokens, Munched cs tokens []) ∨
      ∃ tokens c rest, Munched cs tokens (c :: rest) ∧ isBlank c = false ∧ Stuck (c :: rest) := by
  induction cs using scan.induct with
  | case1 => exact .inl ⟨[], .nil []⟩
  | case2 c cs hblank ih =>
    obtain ⟨tokens, h⟩ | ⟨tokens, d, rest, h, hstuck⟩ := ih
    · exact .inl ⟨tokens, .blank hblank h⟩
    · exact .inr ⟨tokens, d, rest, .blank hblank h, hstuck⟩
  | case3 c cs hblank fault hnext =>
    exact .inr ⟨[], c, cs, .nil _, Bool.eq_false_iff.mpr hblank, (next_eq_error_iff.mp hnext).1⟩
  | case4 c cs hblank token left hnext _ ih =>
    obtain ⟨lexeme, happend, hlongest⟩ := next_eq_ok_iff.mp hnext
    rw [← happend]
    obtain ⟨tokens, h⟩ | ⟨tokens, d, rest, h, hstuck⟩ := ih
    · exact .inl ⟨token :: tokens, .lexeme hlongest h⟩
    · exact .inr ⟨token :: tokens, d, rest, .lexeme hlongest h, hstuck⟩

theorem Spaced.scan_eq {tokens : List Token} {cs : List Char} (h : Spaced tokens cs) :
    scan cs = .ok tokens := by
  induction h with
  | nil => rw [scan]
  | blank hblank _ ih => rw [scan_of_isBlank _ hblank, ih]
  | @token token lexeme tokens cs hspells hblank _ ih =>
    rw [scan_spells hspells (token.ends_of_isBlank hblank), ih]
    rfl

theorem exists_spells_iff {token : Token} : (∃ lexeme, token.Spells lexeme) ↔ token.Lexical := by
  cases token with
  | keyword word =>
    refine iff_of_true ⟨word.spelling.toList, ?_⟩ trivial
    cases word <;> rfl
  | literal value => cases value <;> exact ⟨fun ⟨_, hlexical, _⟩ => hlexical, fun h => ⟨_, h, rfl⟩⟩
  | _ => exact ⟨fun ⟨_, hlexical, _⟩ => hlexical, fun h => ⟨_, h, rfl⟩⟩

/-- A text is read as the tokens of the longest lexemes, taken one after the other, and told to be
wrong at the first place where none stands. So tokens that are written with a blank between two of
them are read back, however the keywords are written and whatever blanks stand around. -/
theorem scan_exact :
    (∀ text tokens, scan text = .ok tokens ↔ Munched text tokens []) ∧
      (∀ text fault, scan text = .error fault ↔ ∃ tokens c rest, Munched text tokens (c :: rest) ∧
        isBlank c = false ∧ Stuck (c :: rest) ∧ fault = faultAt c) ∧
      (∀ token : Token, token.Lexical ↔ ∃ lexeme, token.Spells lexeme) ∧
      ∀ tokens text, Spaced tokens text → scan text = .ok tokens := by
  have hdone : ∀ {text tokens}, Munched text tokens [] → scan text = .ok tokens := by
    intro text tokens h
    rw [h.scan_eq, scan]
    exact congrArg Except.ok (List.append_nil tokens)
  have hfault : ∀ {text tokens c rest}, Munched text tokens (c :: rest) → isBlank c = false →
      Stuck (c :: rest) → scan text = .error (faultAt c) := by
    intro text tokens c rest h hblank hstuck
    rw [h.scan_eq, scan_of_error hblank (next_eq_error_iff.mpr ⟨hstuck, rfl⟩)]
    rfl
  refine ⟨fun text tokens => ⟨fun h => ?_, hdone⟩, fun text fault => ⟨fun h => ?_, ?_⟩,
    fun token => exists_spells_iff.symm, fun tokens text => Spaced.scan_eq⟩
  · obtain ⟨own, hown⟩ | ⟨own, c, rest, hown, hblank, hstuck⟩ := exists_munched text
    · obtain rfl := Except.ok.inj ((hdone hown).symm.trans h)
      exact hown
    · cases (hfault hown hblank hstuck).symm.trans h
  · obtain ⟨own, hown⟩ | ⟨own, c, rest, hown, hblank, hstuck⟩ := exists_munched text
    · cases (hdone hown).symm.trans h
    · exact ⟨own, c, rest, hown, hblank, hstuck,
        (Except.error.inj ((hfault hown hblank hstuck).symm.trans h)).symm⟩
  · rintro ⟨tokens, c, rest, h, hblank, hstuck, rfl⟩
    exact hfault h hblank hstuck

theorem scan_exact_touching :
    let tokens : List Token := [.literal (.number "10"), .keyword .and]
    let spaced := [' ', '1', '0', '\n', 'A', 'N', 'D']
    Munched ['1', '0', 'a', 'n', 'd'] tokens [] ∧
      (∃ tokens c rest, Munched ['5', 'e', '-'] tokens (c :: rest) ∧ isBlank c = false ∧
        Stuck (c :: rest) ∧ .invalidCharacter '-' = faultAt c) ∧
      Spaced tokens spaced ∧ scan spaced = .ok tokens := by
  intro tokens spaced
  have hspaced : Spaced tokens spaced := by
    have hnumber : (Token.literal (.number "10")).Spells ['1', '0'] := by
      refine ⟨.inl ⟨['1', '0'], [], [], ⟨by decide, ?_⟩, .inl rfl, .inl rfl, rfl⟩, rfl⟩
      exact List.all_eq_true.mp (by decide)
    have hkeyword : (Token.keyword .and).Spells ['A', 'N', 'D'] := rfl
    have hlast : Spaced [.keyword .and] (['A', 'N', 'D'] ++ []) :=
      .token hkeyword (fun _ h => absurd h nofun) .nil
    have hblank : ∀ c ∈ ['\n', 'A', 'N', 'D'].head?, isBlank c := by
      rintro c ⟨⟩
      rfl
    exact .blank rfl (.token hnumber hblank (.blank rfl hlast))
  exact ⟨(scan_exact.1 _ _).mp (by with_unfolding_all rfl),
    (scan_exact.2.1 _ _).mp (by with_unfolding_all rfl), hspaced, scan_exact.2.2.2 _ _ hspaced⟩

end KeyedTable.Token
