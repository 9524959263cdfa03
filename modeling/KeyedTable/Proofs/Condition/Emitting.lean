import KeyedTable.Condition.Placeholder
import KeyedTable.Proofs.Condition.Lexing

/-! A sent expression is written token by token. What comes out are the pieces of its tree, with one
space between two of them or none. -/

namespace KeyedTable

namespace Placeholders

def addNames (names : SortedMap String String) (segments : List String) : SortedMap String String :=
  segments.foldl (fun m segment => m.insert (nameOf segment) segment) names

def addValues (values : SortedMap String AttributeValue) (next : Nat) :
    List Literal → SortedMap String AttributeValue
  | [] => values
  | literal :: literals =>
    addValues (values.insert (valueOf next) literal.toValue) (next + 1) literals

end Placeholders

inductive Piece
  | name (segment : String)
  | value (index : Nat)
  | word (text : String)
  | function (f : FunctionName)
  | dot
  | comma
  | lparen
  | rparen
  deriving DecidableEq, Repr

namespace Piece

def spelling : Piece → String
  | .name segment => Placeholders.nameOf segment
  | .value index => Placeholders.valueOf index
  | .word text => text
  | .function f => f.spelling
  | .dot => "."
  | .comma => ","
  | .lparen => "("
  | .rparen => ")"

def opens : Piece → Bool
  | .function _ | .dot | .lparen => true
  | _ => false

def closes : Piece → Bool
  | .rparen | .comma | .dot => true
  | _ => false

def render : List Piece → String
  | [] => ""
  | [piece] => piece.spelling
  | piece :: following :: rest =>
    piece.spelling ++ (if piece.opens || following.closes then "" else " ") ++
      render (following :: rest)

end Piece

def Path.pieces (path : Path) : List Piece :=
  .name path.first :: path.rest.flatMap fun segment => [.dot, .name segment]

namespace Condition

def elementPieces (index : Nat) : List Literal → List Piece
  | [] => []
  | _ :: others => .comma :: .value index :: elementPieces (index + 1) others

def pieces (index : Nat) : Condition → List Piece
  | .compare path comparator _ => path.pieces ++ [.word comparator.spelling, .value index]
  | .between path _ _ =>
    path.pieces ++
      [.word (Keyword.spelling .between), .value index, .word (Keyword.spelling .and),
        .value (index + 1)]
  | .among path _ others =>
    path.pieces ++ .word (Keyword.spelling .among) :: .lparen :: .value index ::
      elementPieces (index + 1) others ++ [.rparen]
  | .presence test path => .function (.presence test) :: .lparen :: path.pieces ++ [.rparen]
  | .feature test path _ =>
    .function (.feature test) :: .lparen :: path.pieces ++ [.comma, .value index, .rparen]
  | .size path comparator _ =>
    .function .size :: .lparen :: path.pieces ++
      [.rparen, .word comparator.spelling, .value index]
  | .join connective left right =>
    left.pieces index ++ .word connective.spelling ::
      right.pieces (index + left.literals.length)
  | .group inner => .lparen :: inner.pieces index ++ [.rparen]

end Condition

namespace Piece

/-- The pieces as the writer leaves them, if it comes to them with this glue. -/
def written (glue : Bool) : List Piece → String
  | [] => ""
  | piece :: ps =>
    (if glue || piece.closes then "" else " ") ++ piece.spelling ++ written piece.opens ps

def glueAfter (glue : Bool) : List Piece → Bool
  | [] => glue
  | piece :: ps => glueAfter piece.opens ps

variable {glue : Bool} {ps qs : List Piece}

theorem written_append :
    written glue (ps ++ qs) = written glue ps ++ written (glueAfter glue ps) qs := by
  induction ps generalizing glue with
  | nil => simp [written, glueAfter]
  | cons piece ps ih => simp only [List.cons_append, written, glueAfter, ih, String.append_assoc]

theorem glueAfter_append : glueAfter glue (ps ++ qs) = glueAfter (glueAfter glue ps) qs := by
  induction ps generalizing glue with
  | nil => rfl
  | cons piece ps ih => exact ih

theorem written_true : written true ps = render ps := by
  induction ps with
  | nil => rfl
  | cons piece ps ih =>
    cases ps with
    | nil => simp [written, render]
    | cons following ps =>
      rw [written, Bool.true_or, if_pos rfl] at ih
      simp only [written, render, Bool.true_or, if_true, ← ih, String.empty_append,
        String.append_assoc]

end Piece

namespace Placeholders

theorem toList_nameOf (segment : String) : (nameOf segment).toList = '#' :: segment.toList := by
  simp [nameOf]

theorem toList_valueOf (index : Nat) : (valueOf index).toList = ':' :: Nat.toDigits 10 index := by
  simp [valueOf, Nat.toList_repr]

variable {names : SortedMap String String} {values : SortedMap String AttributeValue}

theorem addNames_append {segments others : List String} :
    addNames names (segments ++ others) = addNames (addNames names segments) others :=
  List.foldl_append

theorem addValues_append {next : Nat} {literals others : List Literal} :
    addValues values next (literals ++ others) =
      addValues (addValues values next literals) (next + literals.length) others := by
  induction literals generalizing values next with
  | nil => rfl
  | cons literal literals ih =>
    simp only [List.cons_append, addValues, ih, List.length_cons, Nat.add_assoc, Nat.add_comm 1]

end Placeholders

namespace Emitter

/-- The writer after the pieces, with their names and their literals in its maps. -/
def emitted (e : Emitter) (ps : List Piece) (segments : List String) (literals : List Literal) :
    Emitter where
  text := e.text ++ Piece.written e.glue ps
  glue := Piece.glueAfter e.glue ps
  placeholders :=
    { names := Placeholders.addNames e.placeholders.names segments
      values := Placeholders.addValues e.placeholders.values e.next literals }
  next := e.next + literals.length

variable {e : Emitter} {ps qs : List Piece} {segments others : List String}
  {literals following : List Literal}

@[simp] theorem next_emitted : (e.emitted ps segments literals).next = e.next + literals.length :=
  rfl

theorem emitted_nil : e.emitted [] [] [] = e := by
  simp [emitted, Piece.written, Piece.glueAfter, Placeholders.addNames, Placeholders.addValues]

theorem emitted_emitted :
    (e.emitted ps segments literals).emitted qs others following =
      e.emitted (ps ++ qs) (segments ++ others) (literals ++ following) := by
  simp only [emitted, Piece.written_append, Piece.glueAfter_append, Placeholders.addNames_append,
    Placeholders.addValues_append, String.append_assoc, List.length_append, Nat.add_assoc]

theorem token_eq (piece : Piece) (hfirst : attaches piece.spelling = piece.closes) :
    e.token piece.spelling =
      { e.emitted [piece] [] [] with glue := leavesGlue piece.spelling } := by
  have htext : (if e.glue || piece.closes then e.text else e.text ++ " ") =
      e.text ++ if e.glue || piece.closes then "" else " " := by
    split
    · exact String.append_empty.symm
    · rfl
  simp only [token, emitted, Piece.written, hfirst, htext, String.append_empty,
    String.append_assoc]
  rfl

theorem token_eq_emitted (piece : Piece) (hfirst : attaches piece.spelling = piece.closes)
    (hlast : leavesGlue piece.spelling = piece.opens) :
    e.token piece.spelling = e.emitted [piece] [] [] := by
  rw [token_eq piece hfirst, hlast]
  rfl

theorem token_keyword (word : Keyword) :
    e.token word.spelling = e.emitted [.word word.spelling] [] [] :=
  token_eq_emitted (.word word.spelling) (by cases word <;> decide)
    (by cases word <;> decide)

theorem token_comparator (sign : Comparator) :
    e.token sign.spelling = e.emitted [.word sign.spelling] [] [] :=
  token_eq_emitted (.word sign.spelling) (by cases sign <;> decide)
    (by cases sign <;> decide)

theorem token_dot : e.token "." = e.emitted [.dot] [] [] :=
  token_eq_emitted .dot (by decide) (by decide)

theorem token_comma : e.token "," = e.emitted [.comma] [] [] :=
  token_eq_emitted .comma (by decide) (by decide)

theorem token_lparen : e.token "(" = e.emitted [.lparen] [] [] :=
  token_eq_emitted .lparen (by decide) (by decide)

theorem token_rparen : e.token ")" = e.emitted [.rparen] [] [] :=
  token_eq_emitted .rparen (by decide) (by decide)

theorem function_eq (f : FunctionName) : e.function f = e.emitted [.function f] [] [] := by
  have hfirst : attaches (Piece.function f).spelling = false := by
    rcases f with (_ | _) | (_ | _ | _) | _ <;> decide
  have htoken : e.token f.spelling = _ := token_eq (.function f) hfirst
  rw [function, htoken]
  rfl

theorem plain_placeholder {text : String} {mark : Char} {cs : List Char}
    (htext : text.toList = mark :: cs) (hmark : mark = '#' ∨ mark = ':')
    (hcs : ∀ d ∈ cs, Token.continuesWord d) : attaches text = false ∧ leavesGlue text = false := by
  have hlast : ∀ d ∈ (mark :: cs).getLast?, (d == '(' || d == '.') = false := by
    intro d hd
    cases List.mem_cons.mp (List.mem_of_getLast? hd) with
    | inl heq => subst heq; cases hmark <;> subst_vars <;> decide
    | inr hmem =>
      cases hsign : (d == '(' || d == '.') with
      | false => rfl
      | true =>
        simp only [Bool.or_eq_true, beq_iff_eq] at hsign
        cases hsign <;> subst_vars <;> exact absurd (hcs _ hmem) (by decide)
  constructor
  · rw [attaches, htext]
    cases hmark <;> subst_vars <;> rfl
  · rw [leavesGlue, htext, Option.any_eq_false]
    simpa using hlast

theorem segment_eq {segment : String} (h : Token.IsName segment) :
    e.segment segment = e.emitted [.name segment] [segment] [] := by
  obtain ⟨hfirst, hlast⟩ :=
    plain_placeholder (Placeholders.toList_nameOf segment) (.inl rfl) h.continuesWord
  exact token_eq_emitted (.name segment) hfirst hlast

theorem literal_eq (value : Literal) : e.literal value = e.emitted [.value e.next] [] [value] := by
  obtain ⟨hfirst, hlast⟩ := plain_placeholder (Placeholders.toList_valueOf e.next) (.inr rfl)
    fun _ => Token.continuesWord_of_mem_toDigits
  exact token_eq_emitted (.value e.next) hfirst hlast

theorem segments_eq {rest : List String} (h : ∀ segment ∈ rest, Token.IsName segment) :
    rest.foldl (fun e segment => (e.token ".").segment segment) e =
      e.emitted (rest.flatMap fun segment => [.dot, .name segment]) rest [] := by
  induction rest generalizing e with
  | nil => exact emitted_nil.symm
  | cons segment rest ih =>
    obtain ⟨hsegment, hrest⟩ := List.forall_mem_cons.mp h
    rw [List.foldl_cons, token_dot, segment_eq hsegment, ih hrest, emitted_emitted, emitted_emitted]
    rfl

theorem path_eq {path : Path} (h : ∀ segment ∈ path.segments, Token.IsName segment) :
    e.path path = e.emitted path.pieces path.segments [] := by
  obtain ⟨hfirst, hrest⟩ := List.forall_mem_cons.mp h
  rw [Emitter.path, segment_eq hfirst, segments_eq hrest, emitted_emitted]
  rfl

theorem elements_eq (values : List Literal) :
    e.elements values = e.emitted (Condition.elementPieces e.next values) [] values := by
  induction values generalizing e with
  | nil => exact emitted_nil.symm
  | cons value values ih =>
    have hrest : e.elements (value :: values) = ((e.token ",").literal value).elements values := rfl
    rw [hrest, token_comma, literal_eq, ih, emitted_emitted, emitted_emitted]
    rfl

/-- Writing a condition writes its pieces. -/
theorem condition_eq {c : Condition} (h : ∀ segment ∈ c.segments, Token.IsName segment) :
    e.condition c = e.emitted (c.pieces e.next) c.segments c.literals := by
  induction c generalizing e with
  | compare path sign value =>
    simp [condition, path_eq h, token_comparator, literal_eq, emitted_emitted, Condition.pieces,
      Condition.segments, Condition.literals]
  | between path low high =>
    simp [condition, path_eq h, token_keyword, literal_eq, emitted_emitted, Condition.pieces,
      Condition.segments, Condition.literals]
  | among path first others =>
    simp [condition, path_eq h, token_keyword, token_lparen, token_rparen, literal_eq, elements_eq,
      emitted_emitted, Condition.pieces, Condition.segments, Condition.literals]
  | presence test path =>
    simp [condition, path_eq h, function_eq, token_lparen, token_rparen, emitted_emitted,
      Condition.pieces, Condition.segments, Condition.literals]
  | feature test path argument =>
    simp [condition, path_eq h, function_eq, token_lparen, token_rparen, token_comma, literal_eq,
      emitted_emitted, Condition.pieces, Condition.segments, Condition.literals]
  | size path sign value =>
    simp [condition, path_eq h, function_eq, token_lparen, token_rparen, token_comparator,
      literal_eq, emitted_emitted, Condition.pieces, Condition.segments, Condition.literals]
  | join connective left right ihl ihr =>
    obtain ⟨hleft, hright⟩ := List.forall_mem_append.mp h
    have hword : ∀ e : Emitter, e.token connective.spelling =
        e.emitted [.word connective.spelling] [] [] := fun e => token_keyword connective.keyword
    simp [condition, ihl hleft, ihr hright, hword, emitted_emitted, Condition.pieces,
      Condition.segments, Condition.literals]
  | group inner ih =>
    simp [condition, ih h, token_lparen, token_rparen, emitted_emitted, Condition.pieces,
      Condition.segments, Condition.literals]

end Emitter

namespace Condition

def firstNumber (previous : Option Compiled) : Nat := (previous.map Compiled.next).getD 1

theorem compile_eq {c : Condition} (h : ∀ segment ∈ c.segments, Token.IsName segment)
    (previous : Option Compiled) :
    c.compile previous =
      { expression := Piece.render (c.pieces (firstNumber previous))
        placeholders :=
          { names := Placeholders.addNames ((previous.map Compiled.placeholders).getD .empty).names
              c.segments
            values := Placeholders.addValues
              ((previous.map Compiled.placeholders).getD .empty).values (firstNumber previous)
              c.literals }
        next := firstNumber previous + c.literals.length } := by
  have htext : "" ++ Piece.written true (c.pieces (firstNumber previous)) =
      Piece.render (c.pieces (firstNumber previous)) := by
    rw [String.empty_append, Piece.written_true]
  rw [compile, Emitter.condition_eq h, ← htext]
  rfl

end Condition

end KeyedTable
