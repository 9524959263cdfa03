import KeyedTable.Condition.Resolution
import KeyedTable.Proofs.Condition.Emitting
import KeyedTable.Proofs.Condition.Parsing

namespace KeyedTable

namespace Condition

structure WellFormed (c : Condition) : Prop where
  leftGrouped : c.LeftGrouped
  lexical : ∀ token ∈ c.tokens, token.Lexical

end Condition

theorem FunctionName.lexical_token (f : FunctionName) : f.token.Lexical := by
  refine ⟨?_, ?_, ?_⟩
  · cases f with
    | presence test =>
      cases test <;> exact ⟨_, _, rfl, by decide, List.all_eq_true.mp (by decide)⟩
    | feature test =>
      cases test <;> exact ⟨_, _, rfl, by decide, List.all_eq_true.mp (by decide)⟩
    | size => exact ⟨_, _, rfl, by decide, List.all_eq_true.mp (by decide)⟩
  · cases f with
    | presence test => cases test <;> decide
    | feature test => cases test <;> decide
    | size => decide
  · cases f with
    | presence test => cases test <;> decide
    | feature test => cases test <;> decide
    | size => decide

theorem Respelled.lexical {ts us : List Token} (h : Respelled ts us)
    (hus : ∀ token ∈ us, token.Lexical) : ∀ token ∈ ts, token.Lexical := by
  induction h with
  | nil => exact hus
  | cons token _ ih =>
    rw [List.forall_mem_cons] at hus ⊢
    exact ⟨hus.1, ih hus.2⟩
  | @function ts us name f _ _ ih =>
    rw [List.forall_mem_cons, List.forall_mem_cons] at hus ⊢
    exact ⟨f.lexical_token, trivial, ih hus.2.2⟩

namespace Condition

theorem parse_of_scan {text : String} {c : Condition} (h : c.LeftGrouped)
    (hscan : Token.scan text.toList = .ok c.tokens) : parse text = .ok c := by
  rw [parse, hscan]
  exact ofTokens_tokens h

theorem exists_scan_of_parse {text : String} {c : Condition} (h : parse text = .ok c) :
    ∃ tokens, Token.scan text.toList = .ok tokens ∧ ofTokens tokens = .ok c := by
  unfold parse at h
  cases hscan : Token.scan text.toList with
  | error fault => simp [hscan, bind, Except.bind] at h
  | ok tokens =>
    simp only [hscan, bind, Except.bind] at h
    exact ⟨tokens, rfl, h⟩

theorem wellFormed_of_parse {text : String} {c : Condition} (h : parse text = .ok c) :
    c.WellFormed := by
  obtain ⟨tokens, hscan, hread⟩ := exists_scan_of_parse h
  obtain ⟨hgrouped, htokens⟩ := of_ofTokens hread
  exact ⟨hgrouped, htokens.lexical (Token.lexical_of_scan hscan)⟩

theorem identifier_mem_tokens {c : Condition} {segment : String} (h : segment ∈ c.segments) :
    .identifier segment ∈ c.tokens := by
  have hpath : ∀ path : Path, segment ∈ path.segments → .identifier segment ∈ path.tokens := by
    intro path hsegment
    simpa [Path.segments, Path.tokens] using hsegment
  induction c with
  | join connective left right ihl ihr =>
    cases List.mem_append.mp h with
    | inl h => exact List.mem_append_left _ (ihl h)
    | inr h => exact List.mem_append_right _ (List.mem_cons_of_mem _ (ihr h))
  | group inner ih => exact List.mem_cons_of_mem _ (List.mem_append_left _ (ih h))
  | compare path | between path | among path | presence _ path | feature _ path | size path =>
    simp [tokens, hpath path h]

theorem WellFormed.isName {c : Condition} (h : c.WellFormed) :
    ∀ segment ∈ c.segments, Token.IsName segment :=
  fun _ hsegment => h.lexical _ (identifier_mem_tokens hsegment)

theorem WellFormed.expression_compile {c : Condition} (h : c.WellFormed)
    (previous : Option Compiled) :
    (c.compile previous).expression = Piece.render (c.pieces (firstNumber previous)) := by
  rw [compile_eq h.isName]

end Condition

namespace Placeholders

theorem nameOf_injective {a b : String} (h : nameOf a = nameOf b) : a = b := by
  have := congrArg String.toList h
  exact String.toList_injective (by simpa [nameOf] using this)

theorem valueOf_injective {m n : Nat} (h : valueOf m = valueOf n) : m = n := by
  have hdigits : Nat.toDigits 10 m = Nat.toDigits 10 n := by
    simpa [toList_valueOf] using congrArg String.toList h
  have hread := congrArg (fun cs => Nat.ofDigitChars 10 cs 0) hdigits
  simpa [Nat.ofDigitChars_toDigits] using hread

def Names (placeholders : Placeholders) (segments : List String) : Prop :=
  ∀ segment ∈ segments, placeholders.names.get? (nameOf segment) = some segment

def Values (placeholders : Placeholders) : Nat → List Literal → Prop
  | _, [] => True
  | index, literal :: literals =>
    placeholders.values.get? (valueOf index) = some literal.toValue ∧
      placeholders.Values (index + 1) literals

variable {placeholders : Placeholders}

theorem names_append {as bs : List String} :
    placeholders.Names (as ++ bs) ↔ placeholders.Names as ∧ placeholders.Names bs :=
  List.forall_mem_append

theorem values_append {index : Nat} {as bs : List Literal} :
    placeholders.Values index (as ++ bs) ↔
      placeholders.Values index as ∧ placeholders.Values (index + as.length) bs := by
  induction as generalizing index with
  | nil => simp [Values]
  | cons a as ih =>
    simp only [List.cons_append, Values, ih, List.length_cons, and_assoc,
      Nat.add_assoc, Nat.add_comm 1]

theorem meaning?_nameOf {segment : String}
    (h : placeholders.names.get? (nameOf segment) = some segment) :
    placeholders.meaning? (nameOf segment) = some segment := by
  simp [meaning?, toList_nameOf, h]

theorem meaning?_valueOf {index : Nat} {literal : Literal}
    (h : placeholders.values.get? (valueOf index) = some literal.toValue) :
    placeholders.meaning? (valueOf index) = some literal.spelling := by
  simp [meaning?, toList_valueOf, h]

def isPlain (c : Char) : Bool := c ≠ '#' && c ≠ ':'

theorem substitute_plain {cs : List Char} (rest : List Char) (h : cs.all isPlain) :
    placeholders.substitute (cs ++ rest) = (placeholders.substitute rest).map (cs ++ ·) := by
  induction cs with
  | nil => simp
  | cons c cs ih =>
    simp only [List.all_cons, isPlain, Bool.and_eq_true, decide_eq_true_eq] at h
    rw [List.cons_append, substitute, ih h.2]
    simp [h.1.1, h.1.2, Function.comp_def]

theorem substitute_placeholder {name text : String} {c : Char} {cs rest : List Char}
    (hname : name.toList = c :: cs) (hc : c = '#' ∨ c = ':') (hcs : ∀ d ∈ cs, Token.continuesWord d)
    (hrest : ∀ d ∈ rest.head?, Token.continuesWord d = false)
    (hmeaning : placeholders.meaning? name = some text) :
    placeholders.substitute (name.toList ++ rest) =
      (placeholders.substitute rest).map (text.toList ++ ·) := by
  have hmark : (c = '#' || c = ':') = true := by simpa using hc
  rw [hname, List.cons_append, substitute]
  simp only [hmark, if_true, Token.takeWhile_append_of_head hcs hrest,
    Token.dropWhile_append_of_head hcs hrest, ← hname, String.ofList_toList, hmeaning]
  cases placeholders.substitute rest <;> rfl

end Placeholders

theorem FunctionName.isPlain_spelling (f : FunctionName) :
    f.spelling.toList.all Placeholders.isPlain := by
  cases f with
  | presence test => cases test <;> decide
  | feature test => cases test <;> decide
  | size => decide

namespace Piece

/-- What the piece becomes when the placeholders are replaced. -/
inductive Stands (placeholders : Placeholders) : Piece → Token → Prop
  | name {segment} : placeholders.names.get? (Placeholders.nameOf segment) = some segment →
      Stands placeholders (.name segment) (.identifier segment)
  | value {index literal} :
      placeholders.values.get? (Placeholders.valueOf index) = some literal.toValue →
      Stands placeholders (.value index) (.literal literal)
  | keyword (word : Keyword) : Stands placeholders (.word word.spelling) (.keyword word)
  | comparator (sign : Comparator) : Stands placeholders (.word sign.spelling) (.comparator sign)
  | function (f : FunctionName) : Stands placeholders (.function f) f.token
  | dot : Stands placeholders .dot .dot
  | comma : Stands placeholders .comma .comma
  | lparen : Stands placeholders .lparen .lparen
  | rparen : Stands placeholders .rparen .rparen

def symbol? : Piece → Option Char
  | .dot => some '.'
  | .comma => some ','
  | .lparen => some '('
  | .rparen => some ')'
  | _ => none

def Fits : Piece → List Piece → Prop
  | .function _, ps => ps.head? = some .lparen
  | .value _, ps => ps.head? ≠ some .dot
  | _, _ => True

def gap (piece : Piece) : List Piece → String
  | [] => ""
  | following :: _ => if piece.opens || following.closes then "" else " "

theorem render_cons (piece : Piece) (ps : List Piece) :
    render (piece :: ps) = piece.spelling ++ gap piece ps ++ render ps := by
  cases ps with
  | nil => simp [render, gap]
  | cons following rest => rfl

theorem render_of_symbol {piece : Piece} {c : Char} (ps : List Piece) (h : piece.symbol? = some c) :
    ∃ rest, (render (piece :: ps)).toList = c :: rest := by
  rw [render_cons]
  cases piece <;> cases h <;> exact ⟨_, by simp [spelling]; rfl⟩

def Begins (ps : List Piece) (text : List Char) : Prop :=
  (ps = [] → text = []) ∧ ∀ c ∈ ps.head?.bind symbol?, text.head? = some c

theorem begins_render (ps : List Piece) : Begins ps (render ps).toList := by
  constructor
  · intro h
    simp [h, render]
  · intro c hc
    cases ps with
    | nil => cases hc
    | cons piece ps =>
      obtain ⟨rest, hrest⟩ := render_of_symbol ps hc
      rw [hrest]
      rfl

theorem symbol?_of_closes {piece : Piece} (h : piece.closes) :
    ∃ c ∈ [',', ')', '.'], piece.symbol? = some c ∧ (c = '.' → piece = .dot) := by
  cases piece with
  | dot => exact ⟨'.', by simp, rfl, fun _ => rfl⟩
  | comma => exact ⟨',', by simp, rfl, by simp⟩
  | rparen => exact ⟨')', by simp, rfl, by simp⟩
  | _ => cases h

theorem head_gap {piece : Piece} {ps : List Piece} {text : List Char}
    (hpiece : piece.symbol? = none) (hfits : piece.Fits ps) (htext : Begins ps text) :
    ∀ c ∈ ((gap piece ps).toList ++ text).head?,
      c ∈ [' ', ',', '(', ')'] ∨ c = '.' ∧ ∀ index, piece ≠ .value index := by
  intro c hc
  cases ps with
  | nil => simp [gap, htext.1 rfl] at hc
  | cons following ps =>
    cases hgap : piece.opens || following.closes with
    | false =>
      have hspace : (gap piece (following :: ps)).toList = [' '] := by
        simp only [gap, hgap]
        rfl
      obtain rfl : ' ' = c := by simpa [hspace] using hc
      exact .inl (by simp)
    | true =>
      simp only [gap, hgap, if_true, String.toList_empty, List.nil_append] at hc
      cases hopens : piece.opens with
      | true =>
        cases piece with
        | function f =>
          obtain rfl : following = .lparen := by simpa [Fits] using hfits
          obtain rfl : '(' = c := by simpa [htext.2 '(' rfl] using hc
          exact .inl (by simp)
        | dot => cases hpiece
        | lparen => cases hpiece
        | _ => cases hopens
      | false =>
        obtain ⟨d, hd, hsymbol, hdot⟩ := symbol?_of_closes (by simpa [hopens] using hgap)
        obtain rfl : d = c := by simpa [htext.2 d hsymbol] using hc
        by_cases hpoint : d = '.'
        · refine .inr ⟨hpoint, fun index hvalue => ?_⟩
          subst hvalue
          exact hfits (by simp [hdot hpoint])
        · simp only [List.mem_cons, List.not_mem_nil, or_false, hpoint] at hd
          cases hd with
          | inl hd => exact .inl (by simp [hd])
          | inr hd => exact .inl (by simp [hd])

variable {placeholders : Placeholders} {piece : Piece} {token : Token} {ps : List Piece}
  {ts : List Token}

theorem continuesWord_of_head_gap {text : List Char} (hpiece : piece.symbol? = none)
    (hfits : piece.Fits ps) (htext : Begins ps text) :
    ∀ c ∈ ((gap piece ps).toList ++ text).head?, Token.continuesWord c = false := by
  intro c hc
  cases head_gap hpiece hfits htext c hc with
  | inl h =>
    simp only [List.mem_cons, List.not_mem_nil, or_false] at h
    obtain rfl | rfl | rfl | rfl := h <;> rfl
  | inr h => exact h.1 ▸ by decide

theorem Stands.substitute {rest : List Char} (h : piece.Stands placeholders token)
    (ht : token.Lexical)
    (hrest : piece.symbol? = none → ∀ c ∈ rest.head?, Token.continuesWord c = false) :
    placeholders.substitute (piece.spelling.toList ++ rest) =
      (placeholders.substitute rest).map (token.spelling.toList ++ ·) := by
  cases h with
  | @name segment h =>
    exact Placeholders.substitute_placeholder (Placeholders.toList_nameOf segment) (.inl rfl)
      (Token.IsName.continuesWord ht) (hrest rfl) (Placeholders.meaning?_nameOf h)
  | @value index literal h =>
    exact Placeholders.substitute_placeholder (Placeholders.toList_valueOf index) (.inr rfl)
      (fun _ => Token.continuesWord_of_mem_toDigits) (hrest rfl) (Placeholders.meaning?_valueOf h)
  | keyword word => exact Placeholders.substitute_plain rest (by cases word <;> decide)
  | comparator sign => exact Placeholders.substitute_plain rest (by cases sign <;> decide)
  | function f => exact Placeholders.substitute_plain rest f.isPlain_spelling
  | dot => exact Placeholders.substitute_plain rest (by decide)
  | comma => exact Placeholders.substitute_plain rest (by decide)
  | lparen => exact Placeholders.substitute_plain rest (by decide)
  | rparen => exact Placeholders.substitute_plain rest (by decide)

theorem Stands.ends {text : List Char} (h : piece.Stands placeholders token)
    (hfits : piece.Fits ps) (htext : Begins ps text) :
    token.Ends ((gap piece ps).toList ++ text) := by
  cases h with
  | name h => exact continuesWord_of_head_gap rfl hfits htext
  | @value index literal h =>
    cases literal with
    | string value => trivial
    | boolean value => exact continuesWord_of_head_gap rfl hfits htext
    | number value =>
      intro c hc
      refine ⟨continuesWord_of_head_gap rfl hfits htext c hc, fun hpoint => ?_⟩
      subst hpoint
      have hnot : Piece.symbol? (.value index) = none := rfl
      have := head_gap hnot hfits htext '.' hc
      simp at this
  | keyword word => exact continuesWord_of_head_gap rfl hfits htext
  | comparator sign =>
    have hsigns : ∀ c ∈ ((gap (.word sign.spelling) ps).toList ++ text).head?,
        c ≠ '=' ∧ c ≠ '>' := by
      intro c hc
      have hnot : Piece.symbol? (.word sign.spelling) = none := rfl
      cases head_gap hnot hfits htext c hc with
      | inl h =>
        simp only [List.mem_cons, List.not_mem_nil, or_false] at h
        obtain rfl | rfl | rfl | rfl := h <;> decide
      | inr h => exact h.1 ▸ by decide
    cases sign with
    | less => exact hsigns
    | greater => exact fun c hc => (hsigns c hc).1
    | _ => trivial
  | function f => exact continuesWord_of_head_gap rfl hfits htext
  | _ => trivial

/-- With the placeholders replaced, the pieces are these tokens. -/
def Reads (placeholders : Placeholders) (ps : List Piece) (ts : List Token) : Prop :=
  ∃ text, placeholders.substitute (render ps).toList = some text ∧ Token.scan text = .ok ts ∧
    Begins ps text

theorem reads_nil : Reads placeholders [] [] :=
  ⟨[], by simp [render, Placeholders.substitute], by simp [Token.scan], fun _ => rfl, by simp⟩

theorem scan_gap (piece : Piece) (ps : List Piece) (text : List Char) :
    Token.scan ((gap piece ps).toList ++ text) = Token.scan text := by
  cases ps with
  | nil => simp [gap]
  | cons following ps =>
    cases hgap : piece.opens || following.closes with
    | true => simp [gap, hgap]
    | false =>
      simp only [gap, hgap]
      exact Token.scan_of_isBlank text (by decide)

theorem isPlain_gap (piece : Piece) (ps : List Piece) :
    (gap piece ps).toList.all Placeholders.isPlain := by
  cases ps with
  | nil => simp [gap]
  | cons following ps =>
    cases hgap : piece.opens || following.closes with
    | true => simp [gap, hgap]
    | false =>
      simp only [gap, hgap]
      decide

theorem substitute_gap (piece : Piece) (ps : List Piece) (text : List Char) :
    placeholders.substitute ((gap piece ps).toList ++ text) =
      (placeholders.substitute text).map ((gap piece ps).toList ++ ·) :=
  Placeholders.substitute_plain text (isPlain_gap piece ps)

theorem Reads.cons (h : Reads placeholders ps ts) (hpiece : piece.Stands placeholders token)
    (hfits : piece.Fits ps) (ht : token.Lexical) :
    Reads placeholders (piece :: ps) (token :: ts) := by
  obtain ⟨text, htext, hscan, hbegins⟩ := h
  refine ⟨token.spelling.toList ++ ((gap piece ps).toList ++ text), ?_, ?_, ?_⟩
  · rw [render_cons, String.toList_append, String.toList_append, List.append_assoc,
      hpiece.substitute ht fun hsymbol =>
        continuesWord_of_head_gap hsymbol hfits (begins_render ps),
      substitute_gap, htext]
    rfl
  · rw [Token.scan_spelling ht (hpiece.ends hfits hbegins), scan_gap, hscan]
    rfl
  · refine ⟨by simp, fun c hc => ?_⟩
    cases hpiece with
    | dot => cases hc; rfl
    | comma => cases hc; rfl
    | lparen => cases hc; rfl
    | rparen => cases hc; rfl
    | _ => cases hc

theorem reads_path {path : Path} (hnames : placeholders.Names path.segments)
    (hpath : ∀ token ∈ path.tokens, token.Lexical) (h : Reads placeholders ps ts) :
    Reads placeholders (path.pieces ++ ps) (path.tokens ++ ts) := by
  obtain ⟨first, rest⟩ := path
  have hrest : Reads placeholders
      ((rest.flatMap fun segment => [.dot, .name segment]) ++ ps)
      ((rest.flatMap fun segment => [.dot, .identifier segment]) ++ ts) := by
    induction rest with
    | nil => exact h
    | cons segment rest ih =>
      simp only [Path.segments, Placeholders.Names, Path.tokens, List.flatMap_cons,
        List.forall_mem_append, List.forall_mem_cons] at hnames hpath
      have := ih (by simpa [Path.segments, Placeholders.Names] using ⟨hnames.1, hnames.2.2⟩)
        (List.forall_mem_cons.mpr ⟨hpath.1, hpath.2.2⟩)
      exact (this.cons (.name hnames.2.1) trivial hpath.2.1.2.1).cons .dot trivial trivial
  exact hrest.cons (.name (hnames _ List.mem_cons_self)) trivial (hpath _ List.mem_cons_self)

theorem reads_elements {index : Nat} {values : List Literal}
    (hvalues : placeholders.Values index values)
    (hlexical : ∀ value ∈ values, (Token.literal value).Lexical) (h : Reads placeholders ps ts)
    (hps : ps.head? ≠ some .dot) :
    Reads placeholders (Condition.elementPieces index values ++ ps)
      ((values.flatMap fun value => [.comma, .literal value]) ++ ts) := by
  induction values generalizing index with
  | nil => exact h
  | cons value values ih =>
    rw [List.forall_mem_cons] at hlexical
    have hfits : (Piece.value index).Fits (Condition.elementPieces (index + 1) values ++ ps) := by
      cases values with
      | nil => exact hps
      | cons other values => simp [Fits, Condition.elementPieces]
    exact ((ih hvalues.2 hlexical.2).cons (.value hvalues.1) hfits hlexical.1).cons .comma trivial
      trivial

theorem reads_pieces {c : Condition} {index : Nat} (hnames : placeholders.Names c.segments)
    (hvalues : placeholders.Values index c.literals) (hc : ∀ token ∈ c.tokens, token.Lexical)
    (h : Reads placeholders ps ts) (hps : ps.head? ≠ some .dot) :
    Reads placeholders (c.pieces index ++ ps) (c.tokens ++ ts) := by
  -- The pieces are put in front of what follows, the last of them first.
  induction c generalizing index ps ts with
  | compare path sign value =>
    simp only [Condition.tokens, List.forall_mem_append, List.forall_mem_cons] at hc
    have := (h.cons (.value hvalues.1) hps hc.2.2.1).cons (.comparator sign) trivial trivial
    simpa [Condition.pieces, Condition.tokens] using reads_path hnames hc.1 this
  | between path low high =>
    simp only [Condition.tokens, List.forall_mem_append, List.forall_mem_cons] at hc
    have hhigh := h.cons (.value hvalues.2.1) hps hc.2.2.2.2.1
    have hlow := (hhigh.cons (.keyword .and) trivial trivial).cons (.value hvalues.1)
      (by simp [Fits]) hc.2.2.1
    have := hlow.cons (.keyword .between) trivial trivial
    simpa [Condition.pieces, Condition.tokens] using reads_path hnames hc.1 this
  | among path first others =>
    simp only [Condition.tokens, List.forall_mem_append, List.forall_mem_cons] at hc
    have hothers : ∀ value ∈ others, (Token.literal value).Lexical := by
      intro value hvalue
      exact hc.1.2.2.2.2 _ (List.mem_flatMap.mpr ⟨value, hvalue, by simp⟩)
    have hclose := reads_elements hvalues.2 hothers (h.cons .rparen trivial trivial) (by simp)
    have hfits : (Piece.value index).Fits
        (Condition.elementPieces (index + 1) others ++ .rparen :: ps) := by
      cases others with
      | nil => simp [Fits, Condition.elementPieces]
      | cons other others => simp [Fits, Condition.elementPieces]
    have := ((hclose.cons (.value hvalues.1) hfits hc.1.2.2.2.1).cons .lparen trivial trivial).cons
      (.keyword .among) trivial trivial
    simpa [Condition.pieces, Condition.tokens] using reads_path hnames hc.1.1 this
  | presence test path =>
    simp only [Condition.tokens, List.forall_mem_append, List.forall_mem_cons,
      List.cons_append] at hc
    have := reads_path hnames hc.2.2.1 (h.cons .rparen trivial trivial)
    simpa [Condition.pieces, Condition.tokens] using
      (this.cons .lparen trivial trivial).cons (.function (.presence test)) rfl hc.1
  | feature test path argument =>
    simp only [Condition.tokens, List.forall_mem_append, List.forall_mem_cons,
      List.cons_append] at hc
    have hvalue := (h.cons .rparen trivial trivial).cons (.value hvalues.1) (by simp [Fits])
      hc.2.2.2.2.1
    have := reads_path hnames hc.2.2.1 (hvalue.cons .comma trivial trivial)
    simpa [Condition.pieces, Condition.tokens] using
      (this.cons .lparen trivial trivial).cons (.function (.feature test)) rfl hc.1
  | size path sign value =>
    simp only [Condition.tokens, List.forall_mem_append, List.forall_mem_cons,
      List.cons_append] at hc
    have hvalue := (h.cons (.value hvalues.1) hps hc.2.2.2.2.2.1).cons (.comparator sign) trivial
      trivial
    have := reads_path hnames hc.2.2.1 (hvalue.cons .rparen trivial trivial)
    simpa [Condition.pieces, Condition.tokens] using
      (this.cons .lparen trivial trivial).cons (.function .size) rfl hc.1
  | join connective left right ihl ihr =>
    simp only [Condition.tokens, List.forall_mem_append, List.forall_mem_cons] at hc
    obtain ⟨hnamesl, hnamesr⟩ := Placeholders.names_append.mp hnames
    obtain ⟨hvaluesl, hvaluesr⟩ := Placeholders.values_append.mp hvalues
    have hright := (ihr hnamesr hvaluesr hc.2.2 h hps).cons (.keyword connective.keyword) trivial
      trivial
    simpa [Condition.pieces, Condition.tokens, Connective.spelling] using
      ihl hnamesl hvaluesl hc.1 hright (by simp)
  | group inner ih =>
    simp only [Condition.tokens, List.forall_mem_append, List.forall_mem_cons,
      List.cons_append] at hc
    have := ih hnames hvalues hc.2.1 (h.cons .rparen trivial trivial) (by simp)
    simpa [Condition.pieces, Condition.tokens] using this.cons .lparen trivial trivial

end Piece

end KeyedTable
