import KeyedTable.Proofs.Condition.Compiling
import KeyedTable.Proofs.Condition.Grammar

namespace KeyedTable

namespace Token

def touches : Token → Token → Bool
  | .identifier _, .lparen | .lparen, _ | .dot, _ => true
  | _, .rparen | _, .comma | _, .dot => true
  | _, _ => false

def opens : Token → Bool
  | .lparen | .dot => true
  | _ => false

def closes : Token → Bool
  | .rparen | .comma | .dot => true
  | _ => false

theorem touches_eq {token following : Token}
    (h : ∀ name, token = .identifier name → following ≠ .lparen) :
    token.touches following = (token.opens || following.closes) := by
  cases token with
  | identifier name =>
    cases following with
    | lparen => exact absurd rfl (h name rfl)
    | _ => rfl
  | _ => cases following <;> rfl

def sent (n : Nat) (following : Option Token) : Token → String
  | .identifier name => if following = some .lparen then name else "#" ++ name
  | .literal _ => ":" ++ toString n
  | token => token.spelling

def numbered (n : Nat) : Token → Nat
  | .literal _ => n + 1
  | _ => n

def separator (token : Token) : Option Token → String
  | none => ""
  | some following => if token.touches following then "" else " "

/-- The tokens as they are sent, if the first literal among them has number `n`. -/
def normalForm (n : Nat) : List Token → String
  | [] => ""
  | token :: rest =>
    token.sent n rest.head? ++ token.separator rest.head? ++ normalForm (token.numbered n) rest

end Token

namespace Piece

inductive Writes : Nat → List Piece → List Token → Nat → Prop
  | nil (n : Nat) : Writes n [] [] n
  | name {n m ps ts} (segment : String) : ts.head? ≠ some .lparen → Writes n ps ts m →
      Writes n (.name segment :: ps) (.identifier segment :: ts) m
  | call {n m ps ts} (f : FunctionName) : Writes n ps ts m →
      Writes n (.function f :: .lparen :: ps) (f.token :: .lparen :: ts) m
  | value {n m ps ts} (literal : Literal) : Writes (n + 1) ps ts m →
      Writes n (.value n :: ps) (.literal literal :: ts) m
  | keyword {n m ps ts} (word : Keyword) : Writes n ps ts m →
      Writes n (.word word.spelling :: ps) (.keyword word :: ts) m
  | comparator {n m ps ts} (sign : Comparator) : Writes n ps ts m →
      Writes n (.word sign.spelling :: ps) (.comparator sign :: ts) m
  | dot {n m ps ts} : Writes n ps ts m → Writes n (.dot :: ps) (.dot :: ts) m
  | comma {n m ps ts} : Writes n ps ts m → Writes n (.comma :: ps) (.comma :: ts) m
  | lparen {n m ps ts} : Writes n ps ts m → Writes n (.lparen :: ps) (.lparen :: ts) m
  | rparen {n m ps ts} : Writes n ps ts m → Writes n (.rparen :: ps) (.rparen :: ts) m

variable {n m k : Nat} {ps qs : List Piece} {ts us : List Token}

theorem Writes.append (h : Writes n ps ts m) (hrest : Writes m qs us k)
    (hus : us.head? ≠ some .lparen) : Writes n (ps ++ qs) (ts ++ us) k := by
  induction h with
  | nil => exact hrest
  | @name _ _ _ ts segment hts _ ih =>
    refine .name segment ?_ (ih hrest)
    cases ts with
    | nil => exact hus
    | cons token ts => exact hts
  | call f _ ih => exact .call f (ih hrest)
  | value literal _ ih => exact .value literal (ih hrest)
  | keyword word _ ih => exact .keyword word (ih hrest)
  | comparator sign _ ih => exact .comparator sign (ih hrest)
  | dot _ ih => exact .dot (ih hrest)
  | comma _ ih => exact .comma (ih hrest)
  | lparen _ ih => exact .lparen (ih hrest)
  | rparen _ ih => exact .rparen (ih hrest)

theorem writes_path (n : Nat) (path : Path) : Writes n path.pieces path.tokens n := by
  obtain ⟨first, rest⟩ := path
  have hrest : Writes n (rest.flatMap fun segment => [.dot, .name segment])
      (rest.flatMap fun segment => [.dot, .identifier segment]) n := by
    induction rest with
    | nil => exact .nil n
    | cons segment rest ih => exact .dot (.name segment (Path.head?_steps_ne rest) ih)
  exact .name first (Path.head?_steps_ne rest) hrest

theorem writes_elements (n : Nat) (values : List Literal) :
    Writes n (Condition.elementPieces n values)
      (values.flatMap fun value => [.comma, .literal value]) (n + values.length) := by
  induction values generalizing n with
  | nil => exact .nil n
  | cons value values ih =>
    rw [List.length_cons, ← Nat.add_assoc, Nat.add_right_comm]
    exact .comma (.value value (ih (n + 1)))

theorem writes_pieces (n : Nat) (c : Condition) :
    Writes n (c.pieces n) c.tokens (n + c.literals.length) := by
  induction c generalizing n with
  | compare path sign value =>
    exact (writes_path n path).append (.comparator sign (.value value (.nil _))) (by simp)
  | between path low high =>
    exact (writes_path n path).append
      (.keyword .between (.value low (.keyword .and (.value high (.nil _))))) (by simp)
  | among path first others =>
    have hlist := (writes_elements (n + 1) others).append (.rparen (.nil _)) (by simp)
    have hvalues := Writes.keyword .among (.lparen (.value first hlist))
    have hall := (writes_path n path).append hvalues (by simp)
    simpa [Condition.pieces, Condition.tokens, Condition.literals, Nat.add_assoc,
      Nat.add_comm 1] using hall
  | presence test path =>
    exact .call (.presence test) ((writes_path n path).append (.rparen (.nil _)) (by simp))
  | feature test path argument =>
    exact .call (.feature test)
      ((writes_path n path).append (.comma (.value argument (.rparen (.nil _)))) (by simp))
  | size path sign value =>
    exact .call .size
      ((writes_path n path).append (.rparen (.comparator sign (.value value (.nil _)))) (by simp))
  | join connective left right ihl ihr =>
    rw [Condition.literals, List.length_append, ← Nat.add_assoc]
    exact (ihl n).append (.keyword connective.keyword (ihr _)) (by simp)
  | group inner ih => exact .lparen ((ih n).append (.rparen (.nil _)) (by simp))

variable {piece : Piece} {token : Token}

theorem Writes.closes_head (h : Writes n ps ts m) :
    ps.head?.map closes = ts.head?.map Token.closes := by
  cases h <;> rfl

theorem Writes.gap_eq (h : Writes n ps ts m) (hopens : piece.opens = token.opens)
    (hname : ∀ name, token = .identifier name → ts.head? ≠ some .lparen) :
    gap piece ps = token.separator ts.head? := by
  have hhead := h.closes_head
  cases ps with
  | nil =>
    cases ts with
    | nil => rfl
    | cons next ts => cases hhead
  | cons following ps =>
    cases ts with
    | nil => cases hhead
    | cons next ts =>
      have hcloses : following.closes = next.closes := Option.some.inj hhead
      have htouches : token.touches next = (token.opens || next.closes) :=
        Token.touches_eq fun name htoken hnext => hname name htoken (congrArg some hnext)
      simp only [gap, Token.separator, List.head?_cons, htouches, hopens, hcloses]

theorem Writes.render_cons_eq (h : Writes k ps ts m) (hrender : render ps = Token.normalForm k ts)
    (hnumber : token.numbered n = k) (hspelling : piece.spelling = token.sent n ts.head?)
    (hopens : piece.opens = token.opens)
    (hname : ∀ name, token = .identifier name → ts.head? ≠ some .lparen) :
    render (piece :: ps) = Token.normalForm n (token :: ts) := by
  rw [render_cons, Token.normalForm, hspelling, h.gap_eq hopens hname, hrender, hnumber]

theorem Writes.render_eq (h : Writes n ps ts m) : render ps = Token.normalForm n ts := by
  induction h with
  | nil => rfl
  | name segment hts h ih =>
    exact h.render_cons_eq ih rfl (if_neg hts).symm rfl fun _ _ => hts
  | @call n m ps ts f h ih =>
    have hrest : render (.lparen :: ps) = Token.normalForm n (.lparen :: ts) :=
      h.render_cons_eq ih rfl rfl rfl (by simp)
    rw [render_cons, hrest]
    rfl
  | value literal h ih => exact h.render_cons_eq ih rfl rfl rfl (by simp)
  | keyword word h ih => exact h.render_cons_eq ih rfl rfl rfl (by simp)
  | comparator sign h ih => exact h.render_cons_eq ih rfl rfl rfl (by simp)
  | dot h ih => exact h.render_cons_eq ih rfl rfl rfl (by simp)
  | comma h ih => exact h.render_cons_eq ih rfl rfl rfl (by simp)
  | lparen h ih => exact h.render_cons_eq ih rfl rfl rfl (by simp)
  | rparen h ih => exact h.render_cons_eq ih rfl rfl rfl (by simp)

end Piece

structure SingleSpaced (cs : List Char) : Prop where
  starts : cs.head? ≠ some ' '
  ends : cs.getLast? ≠ some ' '
  apart : ¬ [' ', ' '] <:+: cs

def Unbroken (cs : List Char) : Prop := cs ≠ [] ∧ ' ' ∉ cs

namespace Unbroken

variable {word rest : List Char}

theorem head?_append (hword : Unbroken word) : (word ++ rest).head? ≠ some ' ' := by
  obtain ⟨hne, hspace⟩ := hword
  cases word with
  | nil => exact absurd rfl hne
  | cons c word => exact fun hc => hspace (Option.some.inj hc ▸ List.mem_cons_self)

theorem getLast?_append (hword : Unbroken word) (h : rest.getLast? ≠ some ' ') :
    (word ++ rest).getLast? ≠ some ' ' := by
  rw [List.getLast?_append]
  cases hlast : rest.getLast? with
  | none => exact fun hc => hword.2 (List.mem_of_getLast? hc)
  | some c =>
    rw [hlast] at h
    exact h

theorem not_infix_append (hword : Unbroken word) (h : ¬ [' ', ' '] <:+: rest) :
    ¬ [' ', ' '] <:+: word ++ rest := by
  obtain ⟨-, hspace⟩ := hword
  induction word with
  | nil => exact h
  | cons c word ih =>
    rw [List.mem_cons, not_or] at hspace
    rw [List.cons_append, List.infix_cons_iff, not_or]
    exact ⟨fun hprefix => hspace.1 (List.cons_prefix_cons.mp hprefix).1, ih hspace.2⟩

end Unbroken

namespace SingleSpaced

variable {word rest : List Char}

theorem nil : SingleSpaced [] := ⟨by simp, by simp, by simp⟩

theorem append (hword : Unbroken word) (h : SingleSpaced rest) : SingleSpaced (word ++ rest) :=
  ⟨hword.head?_append, hword.getLast?_append h.ends, hword.not_infix_append h.apart⟩

theorem append_space (hword : Unbroken word) (h : SingleSpaced rest) (hrest : rest ≠ []) :
    SingleSpaced (word ++ ' ' :: rest) := by
  obtain ⟨c, cs, rfl⟩ := List.exists_cons_of_ne_nil hrest
  refine ⟨hword.head?_append, hword.getLast?_append ?_, hword.not_infix_append ?_⟩
  · rw [List.getLast?_cons_cons]
    exact h.ends
  · rw [List.infix_cons_iff, not_or]
    refine ⟨fun hprefix => h.starts ?_, h.apart⟩
    have hnext := (List.cons_prefix_cons.mp hprefix).2
    exact congrArg some (List.cons_prefix_cons.mp hnext).1.symm

end SingleSpaced

namespace Token

theorem unbroken_of_isName {name : String} (h : IsName name) : Unbroken name.toList := by
  obtain ⟨⟨c, cs, hname, hc, hcs⟩, -⟩ := h
  rw [hname]
  refine ⟨List.cons_ne_nil c cs, fun hspace => ?_⟩
  cases List.mem_cons.mp hspace with
  | inl hspace =>
    subst hspace
    cases hc
  | inr hspace => cases hcs _ hspace

theorem unbroken_sent {token : Token} (h : token.Lexical) (n : Nat) (following : Option Token) :
    Unbroken (token.sent n following).toList := by
  cases token with
  | identifier name =>
    have hname := unbroken_of_isName h
    rw [sent]
    split
    · exact hname
    · exact ⟨by simp, by simpa using hname.2⟩
  | literal value =>
    have hdigits : ' ' ∉ Nat.toDigits 10 n := fun hspace =>
      absurd (Nat.isDigit_of_mem_toDigits (by decide) (by decide) hspace) (by decide)
    have hvalue : (sent n following (.literal value)).toList = ':' :: Nat.toDigits 10 n :=
      Placeholders.toList_valueOf n
    rw [hvalue]
    exact ⟨List.cons_ne_nil _ _, by simpa using hdigits⟩
  | keyword word =>
    have hword : Unbroken word.spelling.toList := by cases word <;> exact ⟨by decide, by decide⟩
    exact hword
  | comparator sign =>
    have hsign : Unbroken sign.spelling.toList := by cases sign <;> exact ⟨by decide, by decide⟩
    exact hsign
  | dot => exact (⟨by decide, by decide⟩ : Unbroken ".".toList)
  | comma => exact (⟨by decide, by decide⟩ : Unbroken ",".toList)
  | lparen => exact (⟨by decide, by decide⟩ : Unbroken "(".toList)
  | rparen => exact (⟨by decide, by decide⟩ : Unbroken ")".toList)

theorem normalForm_ne_nil {token : Token} (h : token.Lexical) (n : Nat) (rest : List Token) :
    (normalForm n (token :: rest)).toList ≠ [] := by
  rw [normalForm, String.toList_append, String.toList_append, List.append_assoc]
  exact List.append_ne_nil_of_left_ne_nil (unbroken_sent h n rest.head?).1 _

theorem singleSpaced_normalForm {tokens : List Token} (h : ∀ token ∈ tokens, token.Lexical)
    (n : Nat) : SingleSpaced (normalForm n tokens).toList := by
  induction tokens generalizing n with
  | nil => exact .nil
  | cons token rest ih =>
    obtain ⟨htoken, hrest⟩ := List.forall_mem_cons.mp h
    have hword := unbroken_sent htoken n rest.head?
    have hspaced := ih hrest (token.numbered n)
    rw [normalForm, String.toList_append, String.toList_append, List.append_assoc]
    cases rest with
    | nil => exact hspaced.append hword
    | cons following rest =>
      rw [List.head?_cons, separator]
      split
      · exact hspaced.append hword
      · refine hspaced.append_space hword ?_
        exact normalForm_ne_nil (hrest following List.mem_cons_self) _ rest

end Token

/-- Key conditions and filters are written in one normal form: the tokens of the tree, with names
and literals as placeholders, and one space between two of them or none. So texts that are read as
one tree, those with the same tokens up to the letter case of function names, have one result. -/
theorem normal_form {text : String} {previous : Option Compiled} {compiled : Compiled}
    (h : compileKey text previous = .ok compiled ∨
      compileFilter (some text) previous = .ok (some compiled)) :
    ∃ c, Condition.parse text = .ok c ∧
      compiled.expression = Token.normalForm (Condition.firstNumber previous) c.tokens ∧
      SingleSpaced compiled.expression.toList ∧
      ∀ other, (Condition.parse other = .ok c ↔
          ∃ tokens, Token.scan other.toList = .ok tokens ∧ Respelled c.tokens tokens) ∧
        (Condition.parse other = .ok c →
          compileKey other previous = .ok compiled ∧
            compileFilter (some other) previous = .ok (some compiled)) := by
  have hcompiled : ∃ c, Condition.parse text = .ok c ∧ c.compile previous = compiled := by
    cases h with
    | inl h => exact compileKey_eq_ok_iff.mp h
    | inr h => exact compileFilter_eq_ok_iff.mp h
  obtain ⟨c, hparse, rfl⟩ := hcompiled
  have hwell := Condition.wellFormed_of_parse hparse
  have hform : (c.compile previous).expression =
      Token.normalForm (Condition.firstNumber previous) c.tokens := by
    rw [hwell.expression_compile]
    exact (Piece.writes_pieces (Condition.firstNumber previous) c).render_eq
  refine ⟨c, hparse, hform, ?_, fun other => ⟨⟨fun hother => ?_, ?_⟩, fun hother => ?_⟩⟩
  · rw [hform]
    exact Token.singleSpaced_normalForm hwell.lexical _
  · obtain ⟨tokens, hscan, hread⟩ := Condition.exists_scan_of_parse hother
    exact ⟨tokens, hscan, (Condition.of_ofTokens hread).2⟩
  · rintro ⟨tokens, hscan, hrespelled⟩
    rw [Condition.parse, hscan]
    exact Condition.ofTokens_respelled hwell.leftGrouped hrespelled
  · exact ⟨compileKey_eq_ok_iff.mpr ⟨c, hother, rfl⟩, compileFilter_eq_ok_iff.mpr ⟨c, hother, rfl⟩⟩

theorem normal_form_of_list : ∃ key compiled : Compiled, ∃ c : Condition,
    compileKey "id = 1" none = .ok key ∧
      compileFilter (some "SIZE(  a.b )>=3 AND(x IN(4 , 5))") (some key) = .ok (some compiled) ∧
      compiled.expression = "size(#a.#b) >= :2 and (#x in (:3, :4))" ∧
      compiled.expression = Token.normalForm 2 c.tokens ∧
      compileFilter (some "size(a.b) >= 3 and (x in (4, 5))") (some key) = .ok (some compiled) := by
  have hkey : Condition.parse "id = 1" = .ok (.compare ⟨"id", []⟩ .equal (.number "1")) := by
    with_unfolding_all rfl
  let c : Condition := .join .and (.size ⟨"a", ["b"]⟩ .atLeast (.number "3"))
    (.group (.among ⟨"x", []⟩ (.number "4") [.number "5"]))
  have htext : Condition.parse "SIZE(  a.b )>=3 AND(x IN(4 , 5))" = .ok c := by
    with_unfolding_all rfl
  have hother : Condition.parse "size(a.b) >= 3 and (x in (4, 5))" = .ok c := by
    with_unfolding_all rfl
  let key := (Condition.compare ⟨"id", []⟩ .equal (.number "1")).compile none
  have hfilter := compileFilter_eq_ok_iff.mpr ⟨c, htext, (rfl : c.compile (some key) = _)⟩
  obtain ⟨own, hown, hform, -, hsame⟩ := normal_form (.inr hfilter)
  obtain rfl := Except.ok.inj (hown.symm.trans htext)
  exact ⟨key, _, c, compileKey_eq_ok_iff.mpr ⟨_, hkey, rfl⟩, hfilter, by decide,
    hform, ((hsame _).2 hother).2⟩

end KeyedTable
