import KeyedTable.Proofs.Condition.Compiling

namespace KeyedTable

namespace Token

def literals (tokens : List Token) : List Literal :=
  tokens.filterMap fun
    | .literal value => some value
    | _ => none

def names : List Token → List String
  | [] => []
  | .identifier name :: tokens =>
    if tokens.head? = some .lparen then names tokens else name :: names tokens
  | _ :: tokens => names tokens

variable {ts us : List Token}

theorem names_append (h : us.head? ≠ some .lparen) : names (ts ++ us) = names ts ++ names us := by
  induction ts with
  | nil => rfl
  | cons token ts ih =>
    cases token with
    | identifier name =>
      have hhead : (ts ++ us).head? = some .lparen ↔ ts.head? = some .lparen := by
        cases ts with
        | nil => simpa using h
        | cons token ts => rfl
      simp only [List.cons_append, names, hhead, ih]
      split <;> rfl
    | _ => exact ih

theorem mem_of_mem_names {name : String} (h : name ∈ names ts) : .identifier name ∈ ts := by
  induction ts with
  | nil => cases h
  | cons token ts ih =>
    cases token with
    | identifier first =>
      rw [names] at h
      split at h
      · exact List.mem_cons_of_mem _ (ih h)
      · cases List.mem_cons.mp h with
        | inl heq => exact heq ▸ List.mem_cons_self
        | inr h => exact List.mem_cons_of_mem _ (ih h)
    | _ => exact List.mem_cons_of_mem _ (ih h)

end Token

namespace Respelled

variable {ts us : List Token}

theorem literals_eq (h : Respelled ts us) : Token.literals ts = Token.literals us := by
  induction h with
  | nil => rfl
  | cons token _ ih =>
    cases token with
    | literal value => exact congrArg (value :: ·) ih
    | _ => exact ih
  | function _ _ ih => exact ih

theorem head?_eq_lparen_iff (h : Respelled ts us) :
    ts.head? = some .lparen ↔ us.head? = some .lparen := by
  cases h with
  | nil => rfl
  | cons token _ => rfl
  | function _ _ => simp [FunctionName.token]

theorem names_eq (h : Respelled ts us) : Token.names ts = Token.names us := by
  induction h with
  | nil => rfl
  | cons token h ih =>
    cases token with
    | identifier name => simp only [Token.names, h.head?_eq_lparen_iff, ih]
    | _ => exact ih
  | function _ _ ih => exact ih

end Respelled

namespace Path

theorem literals_tokens (path : Path) : Token.literals path.tokens = [] := by
  simp [Token.literals, tokens, List.filterMap_flatMap]

theorem names_tokens (path : Path) : Token.names path.tokens = path.segments := by
  obtain ⟨first, rest⟩ := path
  have hrest : Token.names (rest.flatMap fun segment => [.dot, .identifier segment]) = rest := by
    induction rest with
    | nil => rfl
    | cons segment rest ih =>
      rw [List.flatMap_cons, Token.names_append (head?_steps_ne rest), ih]
      rfl
  simp only [tokens, Token.names, if_neg (head?_steps_ne rest), hrest, segments]

end Path

namespace Condition

theorem literals_tokens (c : Condition) : Token.literals c.tokens = c.literals := by
  have hpath : ∀ path : Path, Token.literals path.tokens = [] := Path.literals_tokens
  unfold Token.literals at *
  induction c with
  | among path first others => simp [tokens, literals, hpath, List.filterMap_flatMap]
  | join connective left right ihl ihr => simp [tokens, literals, ihl, ihr]
  | group inner ih => simp [tokens, literals, ih]
  | _ => simp [tokens, literals, hpath, FunctionName.token]

theorem names_tokens (c : Condition) : Token.names c.tokens = c.segments := by
  have hpath : ∀ (path : Path) {rest : List Token}, rest.head? ≠ some .lparen →
      Token.names rest = [] → Token.names (path.tokens ++ rest) = path.segments := by
    intro path rest hhead hrest
    rw [Token.names_append hhead, path.names_tokens, hrest, List.append_nil]
  induction c with
  | among path first others =>
    have helements : Token.names ((others.flatMap fun value => [.comma, .literal value]) ++
        [.rparen]) = [] := by
      induction others with
      | nil => rfl
      | cons value others ih => exact ih
    rw [tokens, List.append_assoc]
    exact hpath path (by simp) helements
  | join connective left right ihl ihr =>
    rw [tokens, Token.names_append (by simp), ihl]
    exact congrArg _ ihr
  | group inner ih =>
    exact (Token.names_append (by simp)).trans ((List.append_nil _).trans ih)
  | compare path | between path | presence _ path | feature _ path | size path =>
    exact hpath path (by simp) rfl

end Condition

def textTokens (text : String) : List Token := (Token.scan text.toList).toOption.getD []

def textLiterals (text : String) : List Literal := Token.literals (textTokens text)

def textNames (text : String) : List String := Token.names (textTokens text)

theorem textTokens_of_isBlank {text : String} (h : isBlankText text) : textTokens text = [] := by
  unfold textTokens
  cases hscan : Token.scan text.toList with
  | error fault => rfl
  | ok tokens => exact Token.eq_nil_of_scan_blank (List.all_eq_true.mp h) hscan

theorem Condition.text_of_parse {text : String} {c : Condition} (h : parse text = .ok c) :
    textLiterals text = c.literals ∧ textNames text = c.segments := by
  obtain ⟨tokens, hscan, hread⟩ := exists_scan_of_parse h
  have htokens : textTokens text = tokens := by rw [textTokens, hscan]; rfl
  have hrespelled := (of_ofTokens hread).2
  rw [textLiterals, textNames, htokens, ← hrespelled.literals_eq, ← hrespelled.names_eq]
  exact ⟨c.literals_tokens, c.names_tokens⟩

namespace Placeholders

def occurring : List Char → List String
  | [] => []
  | c :: cs =>
    if c = '#' || c = ':' then
      have := Token.length_dropWhile_le Token.continuesWord cs
      String.ofList (c :: cs.takeWhile Token.continuesWord) ::
        occurring (cs.dropWhile Token.continuesWord)
    else occurring cs
termination_by cs => cs.length

theorem occurring_plain {cs : List Char} (rest : List Char) (h : cs.all isPlain) :
    occurring (cs ++ rest) = occurring rest := by
  induction cs with
  | nil => rfl
  | cons c cs ih =>
    simp only [List.all_cons, isPlain, Bool.and_eq_true, decide_eq_true_eq] at h
    rw [List.cons_append, occurring, ih h.2]
    simp [h.1.1, h.1.2]

theorem occurring_placeholder {name : String} {c : Char} {cs rest : List Char}
    (hname : name.toList = c :: cs) (hc : c = '#' ∨ c = ':') (hcs : ∀ d ∈ cs, Token.continuesWord d)
    (hrest : ∀ d ∈ rest.head?, Token.continuesWord d = false) :
    occurring (name.toList ++ rest) = name :: occurring rest := by
  have hmark : (c = '#' || c = ':') = true := by simpa using hc
  rw [hname, List.cons_append, occurring]
  simp only [hmark, if_true, Token.takeWhile_append_of_head hcs hrest,
    Token.dropWhile_append_of_head hcs hrest, ← hname, String.ofList_toList]

end Placeholders

namespace Piece

def placeholder? : Piece → Option String
  | .name segment => some (Placeholders.nameOf segment)
  | .value index => some (Placeholders.valueOf index)
  | _ => none

def Clean : Piece → Prop
  | .name segment => ∀ c ∈ segment.toList, Token.continuesWord c
  | .word text => text.toList.all Placeholders.isPlain
  | _ => True

theorem occurring_gap (piece : Piece) (ps : List Piece) (text : List Char) :
    Placeholders.occurring ((gap piece ps).toList ++ text) = Placeholders.occurring text :=
  Placeholders.occurring_plain text (isPlain_gap piece ps)

theorem head?_after {piece : Piece} (hpiece : piece.opens = false) (ps : List Piece) :
    ∀ c ∈ ((gap piece ps).toList ++ (render ps).toList).head?, Token.continuesWord c = false := by
  cases ps with
  | nil => simp [gap, render]
  | cons following ps =>
    cases hcloses : following.closes with
    | false =>
      have hgap : (gap piece (following :: ps)).toList = [' '] := by
        simp only [gap, hpiece, hcloses]
        rfl
      intro c hc
      obtain rfl : ' ' = c := by simpa [hgap] using hc
      decide
    | true =>
      obtain ⟨c, hc, hsymbol, -⟩ := symbol?_of_closes hcloses
      obtain ⟨rest, hrest⟩ := render_of_symbol ps hsymbol
      have hgap : gap piece (following :: ps) = "" := by simp [gap, hcloses]
      intro d hd
      obtain rfl : c = d := by simpa [hgap, hrest] using hd
      simp only [List.mem_cons, List.not_mem_nil, or_false] at hc
      obtain rfl | rfl | rfl := hc <;> decide

theorem occurring_render {ps : List Piece} (h : ∀ piece ∈ ps, piece.Clean) :
    Placeholders.occurring (render ps).toList = ps.filterMap placeholder? := by
  induction ps with
  | nil => simp [render, Placeholders.occurring]
  | cons piece ps ih =>
    obtain ⟨hpiece, hps⟩ := List.forall_mem_cons.mp h
    rw [render_cons, String.toList_append, String.toList_append, List.append_assoc]
    cases piece with
    | name segment =>
      rw [spelling, Placeholders.occurring_placeholder (Placeholders.toList_nameOf segment)
        (.inl rfl) hpiece (head?_after rfl ps), occurring_gap, ih hps]
      rfl
    | value index =>
      rw [spelling, Placeholders.occurring_placeholder (Placeholders.toList_valueOf index)
        (.inr rfl) (fun _ => Token.continuesWord_of_mem_toDigits) (head?_after rfl ps),
        occurring_gap, ih hps]
      rfl
    | word text =>
      rw [spelling, Placeholders.occurring_plain _ hpiece, occurring_gap, ih hps]
      rfl
    | function f =>
      rw [spelling, Placeholders.occurring_plain _ f.isPlain_spelling, occurring_gap, ih hps]
      rfl
    | _ =>
      rw [spelling, Placeholders.occurring_plain _ (by decide), occurring_gap, ih hps]
      rfl

end Piece

namespace Condition

variable {c : Condition} {index : Nat}

theorem name_mem_pieces {segment : String} :
    .name segment ∈ c.pieces index ↔ segment ∈ c.segments := by
  have hpath : ∀ path : Path, .name segment ∈ path.pieces ↔ segment ∈ path.segments := by
    intro path
    simp [Path.pieces, Path.segments]
  have helements : ∀ (values : List Literal) (index : Nat),
      .name segment ∉ elementPieces index values := by
    intro values
    induction values with
    | nil => simp [elementPieces]
    | cons value values ih => simp [elementPieces, ih]
  induction c generalizing index with
  | join connective left right ihl ihr => simp [pieces, segments, ihl, ihr]
  | group inner ih => simp [pieces, segments, ih]
  | among path first others => simp [pieces, segments, hpath, helements]
  | _ => simp [pieces, segments, hpath]

theorem value_mem_pieces {n : Nat} :
    .value n ∈ c.pieces index ↔ index ≤ n ∧ n < index + c.literals.length := by
  have hpath : ∀ path : Path, .value n ∉ path.pieces := by
    intro path
    simp [Path.pieces]
  have helements : ∀ (values : List Literal) (index : Nat),
      .value n ∈ elementPieces index values ↔ index ≤ n ∧ n < index + values.length := by
    intro values
    induction values with
    | nil => simp [elementPieces]
    | cons value values ih =>
      intro index
      simp only [elementPieces, List.mem_cons, reduceCtorEq, Piece.value.injEq, false_or, ih,
        List.length_cons]
      omega
  induction c generalizing index with
  | join connective left right ihl ihr =>
    simp only [pieces, List.mem_append, List.mem_cons, reduceCtorEq, ihl, ihr, literals, false_or,
      List.length_append]
    omega
  | group inner ih => simp [pieces, literals, ih]
  | presence test path => simp [pieces, literals, hpath]
  | compare path | between path | among path first others | feature test path | size path =>
    simp only [pieces, List.mem_append, List.mem_cons, hpath, helements, reduceCtorEq,
      Piece.value.injEq, List.not_mem_nil, false_or, or_false, literals, List.length_cons,
      List.length_nil]
    omega

theorem isPlain_of_word_mem_pieces {text : String} (h : .word text ∈ c.pieces index) :
    text.toList.all Placeholders.isPlain := by
  have hpath : ∀ path : Path, .word text ∉ path.pieces := by
    intro path
    simp [Path.pieces]
  have helements : ∀ (values : List Literal) (index : Nat),
      .word text ∉ elementPieces index values := by
    intro values
    induction values with
    | nil => simp [elementPieces]
    | cons value values ih => simp [elementPieces, ih]
  induction c generalizing index with
  | join connective left right ihl ihr =>
    simp only [pieces, List.mem_append, List.mem_cons, Piece.word.injEq] at h
    obtain h | rfl | h := h
    · exact ihl h
    · cases connective <;> decide
    · exact ihr h
  | group inner ih => exact ih (by simpa [pieces] using h)
  | compare path sign value | size path sign value =>
    obtain rfl : text = sign.spelling := by simpa [pieces, hpath] using h
    cases sign <;> decide
  | between path low high =>
    obtain rfl | rfl : text = Keyword.spelling .between ∨ text = Keyword.spelling .and := by
      simpa [pieces, hpath] using h
    · decide
    · decide
  | among path first others =>
    obtain rfl : text = Keyword.spelling .among := by simpa [pieces, hpath, helements] using h
    decide
  | presence test path | feature test path argument => simp [pieces, hpath] at h

theorem mem_occurring_iff (hc : c.WellFormed) (index : Nat) {placeholder : String} :
    placeholder ∈ Placeholders.occurring (Piece.render (c.pieces index)).toList ↔
      (∃ segment ∈ c.segments, placeholder = Placeholders.nameOf segment) ∨
        ∃ k < c.literals.length, placeholder = Placeholders.valueOf (index + k) := by
  have hclean : ∀ piece ∈ c.pieces index, piece.Clean := by
    intro piece hpiece
    cases piece with
    | name segment =>
      rw [name_mem_pieces, ← c.names_tokens] at hpiece
      exact Token.IsName.continuesWord (hc.lexical _ (Token.mem_of_mem_names hpiece))
    | word text => exact isPlain_of_word_mem_pieces hpiece
    | _ => trivial
  rw [Piece.occurring_render hclean, List.mem_filterMap]
  constructor
  · rintro ⟨piece, hpiece, hplaceholder⟩
    cases piece with
    | name segment =>
      exact .inl ⟨segment, name_mem_pieces.mp hpiece, (Option.some.inj hplaceholder).symm⟩
    | value n =>
      obtain ⟨hle, hlt⟩ := value_mem_pieces.mp hpiece
      obtain ⟨k, rfl⟩ := Nat.exists_eq_add_of_le hle
      exact .inr ⟨k, by omega, (Option.some.inj hplaceholder).symm⟩
    | _ => cases hplaceholder
  · rintro (⟨segment, hsegment, rfl⟩ | ⟨k, hk, rfl⟩)
    · exact ⟨.name segment, name_mem_pieces.mpr hsegment, rfl⟩
    · exact ⟨.value (index + k), value_mem_pieces.mpr ⟨by omega, by omega⟩, rfl⟩

end Condition

end KeyedTable
