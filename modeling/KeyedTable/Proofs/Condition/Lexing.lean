import KeyedTable.Condition.Lexer

namespace KeyedTable.Token

def IsName (name : String) : Prop :=
  (∃ c cs, name.toList = c :: cs ∧ beginsWord c ∧ ∀ d ∈ cs, continuesWord d) ∧
    name ∉ ["true", "false"] ∧ FunctionName.lowercase name ∉ ["and", "or", "between", "in"]

def IsDigits (cs : List Char) : Prop := cs ≠ [] ∧ ∀ d ∈ cs, d.isDigit

def IsFraction (cs : List Char) : Prop := cs = [] ∨ ∃ digits, IsDigits digits ∧ cs = '.' :: digits

def IsExponent (cs : List Char) : Prop :=
  cs = [] ∨ ∃ e sign digits, (e = 'e' ∨ e = 'E') ∧ sign ∈ [[], ['+'], ['-']] ∧ IsDigits digits ∧
    cs = e :: (sign ++ digits)

def IsMagnitude (cs : List Char) : Prop :=
  ∃ whole part power, IsDigits whole ∧ IsFraction part ∧ IsExponent power ∧
    cs = whole ++ part ++ power

def IsNumber (text : String) : Prop :=
  IsMagnitude text.toList ∨ ∃ cs, IsMagnitude cs ∧ text.toList = '-' :: cs

def Lexical : Token → Prop
  | .identifier name => IsName name
  | .literal (.string text) => '"' ∉ text.toList
  | .literal (.number text) => IsNumber text
  | _ => True

/-- Whether the text does not begin with a character that would belong to the token. -/
def Ends : Token → List Char → Prop
  | .identifier _, rest | .keyword _, rest | .literal (.boolean _), rest =>
    ∀ c ∈ rest.head?, continuesWord c = false
  | .literal (.number _), rest => ∀ c ∈ rest.head?, continuesWord c = false ∧ c ≠ '.'
  | .comparator .less, rest => ∀ c ∈ rest.head?, c ≠ '=' ∧ c ≠ '>'
  | .comparator .greater, rest => ∀ c ∈ rest.head?, c ≠ '='
  | _, _ => True

theorem ends_of_isBlank (token : Token) {rest : List Char} (h : ∀ c ∈ rest.head?, isBlank c) :
    token.Ends rest := by
  have hhead : ∀ c ∈ rest.head?, continuesWord c = false ∧ c ≠ '.' ∧ c ≠ '=' ∧ c ≠ '>' := by
    intro c hc
    have hblank := h c hc
    simp only [isBlank, Bool.or_eq_true, decide_eq_true_eq] at hblank
    obtain (((rfl | rfl) | rfl) | rfl) | rfl := hblank <;> decide
  cases token with
  | identifier => exact fun c hc => (hhead c hc).1
  | keyword => exact fun c hc => (hhead c hc).1
  | literal value =>
    cases value with
    | string => trivial
    | boolean => exact fun c hc => (hhead c hc).1
    | number => exact fun c hc => ⟨(hhead c hc).1, (hhead c hc).2.1⟩
  | comparator sign =>
    cases sign with
    | less => exact fun c hc => (hhead c hc).2.2
    | greater => exact fun c hc => (hhead c hc).2.2.1
    | _ => trivial
  | _ => trivial

theorem takeWhile_append_of_head {p : Char → Bool} {cs rest : List Char} (h : ∀ c ∈ cs, p c)
    (hrest : ∀ c ∈ rest.head?, p c = false) : (cs ++ rest).takeWhile p = cs := by
  rw [List.takeWhile_append_of_pos h]
  cases rest with
  | nil => simp
  | cons c rest => simp [hrest c rfl]

theorem dropWhile_append_of_head {p : Char → Bool} {cs rest : List Char} (h : ∀ c ∈ cs, p c)
    (hrest : ∀ c ∈ rest.head?, p c = false) : (cs ++ rest).dropWhile p = rest := by
  rw [List.dropWhile_append_of_pos h]
  cases rest with
  | nil => rfl
  | cons c rest => simp [hrest c rfl]

theorem continuesWord_of_isDigit {c : Char} (h : c.isDigit) : continuesWord c := by
  simp [continuesWord, Char.isAlphanum, h]

theorem continuesWord_of_beginsWord {c : Char} (h : beginsWord c) : continuesWord c := by
  simp only [beginsWord, Bool.or_eq_true] at h
  cases h with
  | inl h => simp [continuesWord, Char.isAlphanum, h]
  | inr h => simp [continuesWord, h]

theorem continuesWord_of_mem_toDigits {n : Nat} {d : Char} (h : d ∈ Nat.toDigits 10 n) :
    continuesWord d :=
  continuesWord_of_isDigit (Nat.isDigit_of_mem_toDigits (by decide) (by decide) h)

theorem IsName.continuesWord {name : String} (h : IsName name) :
    ∀ d ∈ name.toList, Token.continuesWord d := by
  obtain ⟨⟨c, cs, hname, hc, hcs⟩, -⟩ := h
  rw [hname]
  exact List.forall_mem_cons.mpr ⟨continuesWord_of_beginsWord hc, hcs⟩

theorem isDigit_eq_false {c : Char} (h : continuesWord c = false) : c.isDigit = false := by
  cases hd : c.isDigit with
  | false => rfl
  | true => simp [continuesWord_of_isDigit hd] at h

theorem fraction_of_head {cs : List Char} (h : ∀ c ∈ cs.head?, c ≠ '.') :
    fraction cs = ([], cs) := by
  unfold fraction
  split
  next => exact absurd rfl (h '.' rfl)
  next => rfl

theorem fraction_digits {digits rest : List Char} (h : IsDigits digits)
    (hrest : ∀ c ∈ rest.head?, c.isDigit = false) :
    fraction ('.' :: (digits ++ rest)) = ('.' :: digits, rest) := by
  obtain ⟨hne, hdigits⟩ := h
  have hbegins : beginsWithDigit (digits ++ rest) := by
    cases digits with
    | nil => exact absurd rfl hne
    | cons d ds => simp [beginsWithDigit, hdigits d]
  simp only [fraction, hbegins, if_true, takeWhile_append_of_head hdigits hrest,
    dropWhile_append_of_head hdigits hrest]

theorem exponent_of_head {cs : List Char} (h : ∀ c ∈ cs.head?, c ≠ 'e' ∧ c ≠ 'E') :
    exponent cs = ([], cs) := by
  unfold exponent
  split
  next e s cs => simp [h e rfl]
  next => rfl

theorem exponent_digits {e : Char} {sign digits rest : List Char} (he : e = 'e' ∨ e = 'E')
    (hsign : sign ∈ [[], ['+'], ['-']]) (h : IsDigits digits)
    (hrest : ∀ c ∈ rest.head?, c.isDigit = false) :
    exponent (e :: (sign ++ digits) ++ rest) = (e :: (sign ++ digits), rest) := by
  obtain ⟨hne, hdigits⟩ := h
  obtain ⟨d, ds, rfl⟩ := List.exists_cons_of_ne_nil hne
  have hletter : (e = 'e' || e = 'E') = true := by simpa using he
  have hd : d.isDigit := hdigits d List.mem_cons_self
  have hds : ∀ c ∈ ds, c.isDigit := fun c hc => hdigits c (List.mem_cons_of_mem d hc)
  have htake := takeWhile_append_of_head hds hrest
  have hdrop := dropWhile_append_of_head hds hrest
  simp only [List.mem_cons, List.not_mem_nil, or_false] at hsign
  cases hsign with
  | inl hsign => simp [hsign, exponent, hletter, hd, htake, hdrop]
  | inr hsign =>
    have htake : ((d :: ds) ++ rest).takeWhile Char.isDigit = d :: ds :=
      takeWhile_append_of_head hdigits hrest
    have hdrop : ((d :: ds) ++ rest).dropWhile Char.isDigit = rest :=
      dropWhile_append_of_head hdigits hrest
    have hbegins : beginsWithDigit (d :: ds ++ rest) := by simp [beginsWithDigit, hd]
    cases hsign with
    | inl hsign =>
      subst hsign
      simp only [List.cons_append, List.nil_append] at htake hdrop hbegins ⊢
      simp [exponent, hletter, hbegins, htake, hdrop, show Char.isDigit '+' = false from rfl]
    | inr hsign =>
      subst hsign
      simp only [List.cons_append, List.nil_append] at htake hdrop hbegins ⊢
      simp [exponent, hletter, hbegins, htake, hdrop, show Char.isDigit '-' = false from rfl]

theorem magnitude_of_ends {cs rest : List Char} (h : IsMagnitude cs)
    (hrest : ∀ c ∈ rest.head?, continuesWord c = false ∧ c ≠ '.') :
    magnitude (cs ++ rest) = (cs, rest) := by
  obtain ⟨whole, part, power, hwhole, hpart, hpower, rfl⟩ := h
  have hdigit : ∀ c ∈ rest.head?, c.isDigit = false := fun c hc => isDigit_eq_false (hrest c hc).1
  have hletter : ∀ c ∈ rest.head?, c ≠ 'e' ∧ c ≠ 'E' := by
    intro c hc
    constructor <;> intro he <;> subst he <;> exact absurd (hrest _ hc).1 (by decide)
  have hexponent : exponent (power ++ rest) = (power, rest) := by
    cases hpower with
    | inl hp => subst hp; exact exponent_of_head hletter
    | inr hp =>
      obtain ⟨e, sign, digits, he, hsign, hdigits, rfl⟩ := hp
      exact exponent_digits he hsign hdigits hdigit
  have hpowerHead : ∀ c ∈ (power ++ rest).head?, c.isDigit = false ∧ c ≠ '.' := by
    cases hpower with
    | inl hp => subst hp; exact fun c hc => ⟨hdigit c hc, (hrest c hc).2⟩
    | inr hp =>
      obtain ⟨e, sign, digits, he, -, -, rfl⟩ := hp
      intro c hc
      obtain rfl : e = c := by simpa using hc
      cases he with
      | inl he => subst he; decide
      | inr he => subst he; decide
  have hfraction : fraction (part ++ (power ++ rest)) = (part, power ++ rest) := by
    cases hpart with
    | inl hp => subst hp; exact fraction_of_head fun c hc => (hpowerHead c hc).2
    | inr hp =>
      obtain ⟨digits, hdigits, rfl⟩ := hp
      exact fraction_digits hdigits fun c hc => (hpowerHead c hc).1
  have hpartHead : ∀ c ∈ (part ++ (power ++ rest)).head?, c.isDigit = false := by
    cases hpart with
    | inl hp => subst hp; exact fun c hc => (hpowerHead c hc).1
    | inr hp =>
      obtain ⟨digits, -, rfl⟩ := hp
      intro c hc
      obtain rfl : '.' = c := by simpa using hc
      rfl
  simp only [magnitude, List.append_assoc, takeWhile_append_of_head hwhole.2 hpartHead,
    dropWhile_append_of_head hwhole.2 hpartHead, hfraction, hexponent]

theorem scan_of_isBlank {c : Char} (cs : List Char) (h : isBlank c) : scan (c :: cs) = scan cs := by
  rw [scan]
  simp [h]

theorem scan_of_next {c : Char} {cs rest : List Char} {token : Token} (hc : isBlank c = false)
    (h : next c cs = .ok (token, rest)) : scan (c :: cs) = (scan rest).map (token :: ·) := by
  rw [scan]
  simp only [hc, Bool.false_eq_true, if_false]
  split
  next h' => rw [h] at h'; cases h'
  next h' => rw [h] at h'; cases h'; rfl

theorem scan_of_error {c : Char} {cs : List Char} {fault : ExpressionFault}
    (hc : isBlank c = false) (h : next c cs = .error fault) : scan (c :: cs) = .error fault := by
  rw [scan]
  simp only [hc, Bool.false_eq_true, if_false]
  split
  next h' => rw [h] at h'; cases h'; rfl
  next h' => rw [h] at h'; cases h'

theorem ofWord_of_isName {name : String} (h : IsName name) : ofWord name = .identifier name := by
  obtain ⟨-, htruth, hkeyword⟩ := h
  simp only [List.mem_cons, List.not_mem_nil, or_false, not_or] at htruth hkeyword
  simp [ofWord, htruth, hkeyword]

theorem beginsWord_iff {c : Char} : beginsWord c ↔
    65 ≤ c.toNat ∧ c.toNat ≤ 90 ∨ 97 ≤ c.toNat ∧ c.toNat ≤ 122 ∨ c = '_' := by
  have hword : beginsWord c = ((decide (c.val ≥ 'A'.val ∧ c.val ≤ 'Z'.val) ||
      decide (c.val ≥ 'a'.val) && decide (c.val ≤ 'z'.val)) || decide (c = '_')) := rfl
  rw [hword]
  simp only [Bool.or_eq_true, Bool.and_eq_true, decide_eq_true_eq, UInt32.le_iff_toNat_le, or_assoc]
  exact Iff.rfl

theorem isDigit_eq_false_of_beginsWord {c : Char} (h : beginsWord c) : c.isDigit = false := by
  cases hdigit : c.isDigit with
  | false => rfl
  | true =>
    have hrange : 48 ≤ c.toNat ∧ c.toNat ≤ 57 := Char.isDigit_iff_toNat.mp hdigit
    obtain h | h | rfl := beginsWord_iff.mp h
    · omega
    · omega
    · cases hdigit

theorem isBlank_eq_false {c : Char} (h : beginsWord c ∨ c.isDigit) : isBlank c = false := by
  cases hb : isBlank c with
  | false => rfl
  | true =>
    simp only [isBlank, Bool.or_eq_true, decide_eq_true_eq] at hb
    obtain (((rfl | rfl) | rfl) | rfl) | rfl := hb <;> exact absurd h (by decide)

theorem next_word {c : Char} {cs rest : List Char} (hc : beginsWord c)
    (hcs : ∀ d ∈ cs, continuesWord d) (hrest : ∀ d ∈ rest.head?, continuesWord d = false) :
    next c (cs ++ rest) = .ok (ofWord (String.ofList (c :: cs)), rest) := by
  have htake := takeWhile_append_of_head hcs hrest
  have hdrop := dropWhile_append_of_head hcs hrest
  unfold next
  split
  case h_13 => simp [isDigit_eq_false_of_beginsWord hc, hc, htake, hdrop]
  all_goals exact absurd hc (by decide)

theorem scan_word {word : String} {c : Char} {cs rest : List Char} (hword : word.toList = c :: cs)
    (hc : beginsWord c) (hcs : ∀ d ∈ cs, continuesWord d)
    (hrest : ∀ d ∈ rest.head?, continuesWord d = false) :
    scan (word.toList ++ rest) = (scan rest).map (ofWord word :: ·) := by
  rw [hword, List.cons_append,
    scan_of_next (isBlank_eq_false (.inl hc)) (next_word hc hcs hrest), ← hword,
    String.ofList_toList]

theorem scan_name {name : String} {rest : List Char} (h : IsName name)
    (hrest : Ends (.identifier name) rest) :
    scan (name.toList ++ rest) = (scan rest).map (.identifier name :: ·) := by
  obtain ⟨c, cs, hname, hc, hcs⟩ := h.1
  rw [scan_word hname hc hcs hrest, ofWord_of_isName h]

theorem scan_keyword (keyword : Keyword) {rest : List Char} (hrest : Ends (.keyword keyword) rest) :
    scan (keyword.spelling.toList ++ rest) = (scan rest).map (.keyword keyword :: ·) := by
  cases keyword <;> exact scan_word rfl (by decide) (List.all_eq_true.mp (by decide)) hrest

theorem scan_boolean (value : Bool) {rest : List Char}
    (hrest : Ends (.literal (.boolean value)) rest) :
    scan ((Literal.boolean value).spelling.toList ++ rest) =
      (scan rest).map (.literal (.boolean value) :: ·) := by
  cases value <;> exact scan_word rfl (by decide) (List.all_eq_true.mp (by decide)) hrest

theorem next_string {text : String} (rest : List Char) (h : '"' ∉ text.toList) :
    next '"' (text.toList ++ '"' :: rest) = .ok (.literal (.string text), rest) := by
  have hinside : ∀ c ∈ text.toList, decide (c ≠ '"') := by
    intro c hc
    simp only [decide_eq_true_eq]
    exact fun hq => h (hq ▸ hc)
  have hquote : ∀ c ∈ ('"' :: rest).head?, decide (c ≠ '"') = false := by simp
  have htake := takeWhile_append_of_head hinside hquote
  have hdrop := dropWhile_append_of_head hinside hquote
  simp only [next, hdrop, htake, String.ofList_toList]

theorem scan_string {text : String} {rest : List Char} (h : '"' ∉ text.toList) :
    scan ((Literal.string text).spelling.toList ++ rest) =
      (scan rest).map (.literal (.string text) :: ·) := by
  simpa [Literal.spelling] using scan_of_next (by decide) (next_string rest h)

theorem exists_digit_of_isMagnitude {cs : List Char} (h : IsMagnitude cs) :
    ∃ c rest, cs = c :: rest ∧ c.isDigit := by
  obtain ⟨whole, part, power, ⟨hne, hdigits⟩, -, -, rfl⟩ := h
  obtain ⟨d, ds, rfl⟩ := List.exists_cons_of_ne_nil hne
  exact ⟨d, ds ++ part ++ power, by simp, hdigits d List.mem_cons_self⟩

theorem next_digit {c : Char} {cs : List Char} (hc : c.isDigit) :
    next c cs = .ok (ofNumber (magnitude (c :: cs)).1, (magnitude (c :: cs)).2) := by
  unfold next
  split
  case h_13 => simp [hc]
  all_goals exact absurd hc (by decide)

theorem scan_number {text : String} {rest : List Char} (h : IsNumber text)
    (hrest : Ends (.literal (.number text)) rest) :
    scan (text.toList ++ rest) = (scan rest).map (.literal (.number text) :: ·) := by
  cases h with
  | inl h =>
    obtain ⟨c, cs, htext, hc⟩ := exists_digit_of_isMagnitude h
    have hmagnitude := magnitude_of_ends h hrest
    have hnumber : ofNumber (c :: cs) = .literal (.number text) := by
      rw [ofNumber, ← htext, String.ofList_toList]
    rw [htext, List.cons_append] at hmagnitude
    rw [htext, List.cons_append, scan_of_next (isBlank_eq_false (.inr hc)) (next_digit hc),
      hmagnitude, hnumber]
  | inr h =>
    obtain ⟨cs, h, htext⟩ := h
    obtain ⟨d, ds, hcs, hd⟩ := exists_digit_of_isMagnitude h
    have hbegins : beginsWithDigit (cs ++ rest) := by simp [beginsWithDigit, hcs, hd]
    have hnumber : ofNumber ('-' :: cs) = .literal (.number text) := by
      rw [ofNumber, ← htext, String.ofList_toList]
    have hnext : next '-' (cs ++ rest) = .ok (.literal (.number text), rest) := by
      simp only [next, hbegins, if_true, magnitude_of_ends h hrest, hnumber]
    rw [htext, List.cons_append, scan_of_next (by decide) hnext]

theorem scan_comparator (sign : Comparator) {rest : List Char}
    (hrest : Ends (.comparator sign) rest) :
    scan (sign.spelling.toList ++ rest) = (scan rest).map (.comparator sign :: ·) := by
  cases sign with
  | less =>
    refine scan_of_next (c := '<') (by decide) ?_
    unfold next
    split <;> simp_all [Ends]
  | greater =>
    refine scan_of_next (c := '>') (by decide) ?_
    unfold next
    split <;> simp_all [Ends]
  | equal => exact scan_of_next (c := '=') (by decide) rfl
  | unequal => exact scan_of_next (c := '<') (by decide) rfl
  | atMost => exact scan_of_next (c := '<') (by decide) rfl
  | atLeast => exact scan_of_next (c := '>') (by decide) rfl

theorem scan_spelling {token : Token} {rest : List Char} (h : token.Lexical)
    (hrest : token.Ends rest) :
    scan (token.spelling.toList ++ rest) = (scan rest).map (token :: ·) := by
  cases token with
  | identifier name => exact scan_name h hrest
  | literal value =>
    cases value with
    | string text => exact scan_string h
    | boolean value => exact scan_boolean value hrest
    | number text => exact scan_number h hrest
  | keyword word => exact scan_keyword word hrest
  | comparator sign => exact scan_comparator sign hrest
  | dot => exact scan_of_next (c := '.') (by decide) rfl
  | comma => exact scan_of_next (c := ',') (by decide) rfl
  | lparen => exact scan_of_next (c := '(') (by decide) rfl
  | rparen => exact scan_of_next (c := ')') (by decide) rfl

theorem isDigits_takeWhile {cs : List Char} (h : beginsWithDigit cs) :
    IsDigits (cs.takeWhile Char.isDigit) := by
  constructor
  · cases cs with
    | nil => simp [beginsWithDigit] at h
    | cons c cs => simp [show c.isDigit = true by simpa [beginsWithDigit] using h]
  · exact List.all_eq_true.mp List.all_takeWhile

theorem isFraction_fraction (cs : List Char) : IsFraction (fraction cs).1 := by
  unfold fraction
  split
  · split
    next h => exact .inr ⟨_, isDigits_takeWhile h, rfl⟩
    next => exact .inl rfl
  · exact .inl rfl

theorem isExponent_exponent (cs : List Char) : IsExponent (exponent cs).1 := by
  unfold exponent
  split
  next e s cs =>
    split
    next he =>
      have he : e = 'e' ∨ e = 'E' := by simpa using he
      split
      next hs =>
        have hdigits : IsDigits (s :: cs.takeWhile Char.isDigit) := by
          have hbegins : beginsWithDigit (s :: cs) := by simpa [beginsWithDigit] using hs
          have := isDigits_takeWhile hbegins
          rwa [List.takeWhile_cons_of_pos hs] at this
        exact .inr ⟨e, [], _, he, by simp, hdigits, rfl⟩
      next =>
        split
        next hs =>
          simp only [Bool.and_eq_true, Bool.or_eq_true, decide_eq_true_eq] at hs
          refine .inr ⟨e, [s], _, he, ?_, isDigits_takeWhile hs.2, rfl⟩
          cases hs.1 with
          | inl h => simp [h]
          | inr h => simp [h]
        next => exact .inl rfl
    next => exact .inl rfl
  next => exact .inl rfl

theorem isMagnitude_magnitude {cs : List Char} (h : beginsWithDigit cs) :
    IsMagnitude (magnitude cs).1 :=
  ⟨_, _, _, isDigits_takeWhile h, isFraction_fraction _, isExponent_exponent _, rfl⟩

theorem lexical_ofWord {word : String} {c : Char} {cs : List Char} (hword : word.toList = c :: cs)
    (hc : beginsWord c) (hcs : ∀ d ∈ cs, continuesWord d) : (ofWord word).Lexical := by
  unfold ofWord
  split
  · trivial
  next htrue =>
    split
    · trivial
    next hfalse =>
      split
      · trivial
      · trivial
      · trivial
      · trivial
      next hand hor hbetween hin =>
        refine ⟨⟨c, cs, hword, hc, hcs⟩, ?_, ?_⟩
        · simpa using And.intro htrue hfalse
        · simpa using And.intro hand (And.intro hor (And.intro hbetween hin))

theorem lexical_next {c : Char} {cs rest : List Char} {token : Token}
    (h : next c cs = .ok (token, rest)) : token.Lexical := by
  unfold next at h
  split at h
  case h_11 =>
    split at h
    · cases h
    next =>
      cases h
      intro hq
      rw [String.toList_ofList] at hq
      have := List.all_eq_true.mp List.all_takeWhile _ hq
      simp at this
  case h_12 =>
    split at h
    next hd =>
      cases h
      exact .inr ⟨_, isMagnitude_magnitude hd, String.toList_ofList⟩
    next => cases h
  case h_13 =>
    split at h
    next hd =>
      cases h
      refine .inl ?_
      rw [String.toList_ofList]
      exact isMagnitude_magnitude (by simpa [beginsWithDigit] using hd)
    next =>
      split at h
      next hw =>
        cases h
        exact lexical_ofWord String.toList_ofList hw (List.all_eq_true.mp List.all_takeWhile)
      next => cases h
  all_goals cases h; trivial

theorem lexical_of_scan {cs : List Char} {tokens : List Token} (h : scan cs = .ok tokens) :
    ∀ token ∈ tokens, token.Lexical := by
  induction cs using scan.induct generalizing tokens with
  | case1 =>
    rw [scan] at h
    cases h
    simp
  | case2 c cs hb ih =>
    rw [scan_of_isBlank cs hb] at h
    exact ih h
  | case3 c cs hb fault hnext =>
    rw [scan_of_error (Bool.eq_false_iff.mpr hb) hnext] at h
    cases h
  | case4 c cs hb token rest hnext _ ih =>
    rw [scan_of_next (Bool.eq_false_iff.mpr hb) hnext] at h
    cases hrest : scan rest with
    | error fault => rw [hrest] at h; cases h
    | ok tail =>
      rw [hrest] at h
      cases h
      intro t ht
      cases ht with
      | head => exact lexical_next hnext
      | tail _ ht => exact ih hrest t ht

end KeyedTable.Token
