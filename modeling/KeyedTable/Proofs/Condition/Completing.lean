import KeyedTable.Proofs.Condition.Grammar

namespace KeyedTable

namespace Parser

def anyLiteral : Token := .literal (.boolean true)

def PathUse.closing : PathUse → List Token
  | .predicate => [.comparator .equal, anyLiteral]
  | .presence _ => [.rparen]
  | .feature _ => [.comma, anyLiteral, .rparen]
  | .size => [.rparen, .comparator .equal, anyLiteral]

def LiteralUse.closing : LiteralUse → List Token
  | .compare _ _ | .high _ _ | .size _ _ => []
  | .low _ => [.keyword .and, anyLiteral]
  | .firstOf _ | .nextOf _ _ _ | .argument _ _ => [.rparen]

def Spot.closing : Spot → List Token
  | .term => .identifier "a" :: PathUse.closing .predicate
  | .name _ => PathUse.closing .predicate
  | .segment use _ => .identifier "a" :: use.closing
  | .path use _ => use.closing
  | .literal use => anyLiteral :: use.closing
  | .lowRead _ _ => [.keyword .and, anyLiteral]
  | .amongRead _ => [.lparen, anyLiteral, .rparen]
  | .elementRead _ _ _ | .argumentRead _ _ _ => [.rparen]
  | .sizeRead _ => [.comparator .equal, anyLiteral]
  | .joined _ => []

namespace State

def completion (s : State) : List Token :=
  s.spot.closing ++ List.replicate s.groups.length .rparen

theorem exists_run_closing (s : State) :
    ∃ t left, s.run s.spot.closing = .ok t ∧ t.groups = s.groups ∧ t.spot = .joined left := by
  obtain ⟨pending, groups, spot⟩ := s
  cases spot with
  | segment use before => cases use <;> exact ⟨_, _, rfl, rfl, rfl⟩
  | path use read => cases use <;> exact ⟨_, _, rfl, rfl, rfl⟩
  | literal use => cases use <;> exact ⟨_, _, rfl, rfl, rfl⟩
  | _ => exact ⟨_, _, rfl, rfl, rfl⟩

theorem exists_finish_groups {s : State} {left : Condition} (h : s.spot = .joined left) :
    ∃ t c, s.run (List.replicate s.groups.length .rparen) = .ok t ∧ t.finish = .ok c := by
  obtain ⟨pending, groups, spot⟩ := s
  subst h
  induction groups generalizing pending left with
  | nil => exact ⟨_, left, rfl, rfl⟩
  | cons before groups ih =>
    have hstep : State.step ⟨pending, before :: groups, .joined left⟩ .rparen =
        .ok ⟨none, groups, .joined (attach before (.group left))⟩ := rfl
    obtain ⟨t, c, hrun, hfinish⟩ := ih none
    exact ⟨t, c, (run_cons hstep).trans hrun, hfinish⟩

theorem exists_finish_completion (s : State) :
    ∃ t c, s.run s.completion = .ok t ∧ t.finish = .ok c := by
  obtain ⟨middle, left, hclosing, hgroups, hspot⟩ := s.exists_run_closing
  obtain ⟨t, c, hrun, hfinish⟩ := exists_finish_groups hspot
  refine ⟨t, c, ?_, hfinish⟩
  rw [completion, run_append_of_ok hclosing, ← hgroups, hrun]

theorem lexical_completion (s : State) : ∀ token ∈ s.completion, token.Lexical := by
  have hname : (Token.identifier "a").Lexical := by
    refine ⟨⟨'a', [], rfl, by decide, ?_⟩, by decide, by decide⟩
    exact fun d hd => absurd hd List.not_mem_nil
  have hpath : ∀ use : PathUse, ∀ token ∈ use.closing, token.Lexical := by
    intro use
    cases use <;> simp [PathUse.closing, anyLiteral, Token.Lexical]
  have hliteral : ∀ use : LiteralUse, ∀ token ∈ use.closing, token.Lexical := by
    intro use
    cases use <;> simp [LiteralUse.closing, anyLiteral, Token.Lexical]
  rw [completion, List.forall_mem_append]
  constructor
  · cases s.spot with
    | term => exact List.forall_mem_cons.mpr ⟨hname, hpath .predicate⟩
    | name word => exact hpath .predicate
    | segment use before => exact List.forall_mem_cons.mpr ⟨hname, hpath use⟩
    | path use read => exact hpath use
    | literal use => exact List.forall_mem_cons.mpr ⟨trivial, hliteral use⟩
    | _ => simp [Spot.closing, anyLiteral, Token.Lexical]
  · intro token htoken
    rw [List.eq_of_mem_replicate htoken]
    exact Token.lexical_rparen

variable {s : State} {tokens : List Token} {token : Token} {fault : ExpressionFault}

theorem exists_step_of_run_error (h : s.run tokens = .error fault) :
    ∃ before token after t, tokens = before ++ token :: after ∧ s.run before = .ok t ∧
      t.step token = .error fault := by
  induction tokens generalizing s with
  | nil => cases h
  | cons token tokens ih =>
    cases hstep : s.step token with
    | error own =>
      simp only [run, hstep, bind, Except.bind, Except.error.injEq] at h
      exact ⟨[], token, tokens, s, rfl, rfl, by rw [hstep, h]⟩
    | ok next =>
      rw [run_cons hstep] at h
      obtain ⟨before, other, after, t, rfl, hbefore, hother⟩ := ih h
      exact ⟨token :: before, other, after, t, rfl, (run_cons hstep).trans hbefore, hother⟩

theorem fault_of_stepPredicate {path : Path} (h : s.stepPredicate path token = .error fault) :
    fault = .unexpectedToken s.expected token.describe := by
  unfold stepPredicate at h
  split at h
  case h_5 =>
    cases h
    rfl
  all_goals cases h

theorem fault_of_stepJoined {left : Condition} (h : s.stepJoined left token = .error fault) :
    fault = .unexpectedToken s.expected token.describe := by
  unfold stepJoined at h
  split at h
  case h_3 =>
    split at h
    next =>
      cases h
      rfl
    next => cases h
  case h_4 =>
    cases h
    rfl
  all_goals cases h

theorem fault_of_step (h : s.step token = .error fault) :
    fault = .unexpectedToken s.expected token.describe ∨
      ∃ name, s.spot = .name name ∧ token = .lparen ∧ fault = .unknownFunction name := by
  unfold step at h
  split at h
  case h_3 name hspot =>
    split at h
    next =>
      cases h
      exact .inr ⟨name, hspot, rfl, rfl⟩
    next => cases h
  case h_4 => exact .inl (fault_of_stepPredicate h)
  case h_6 => exact .inl (fault_of_stepPredicate h)
  case h_18 => exact .inl (fault_of_stepJoined h)
  case h_19 =>
    cases h
    exact .inl rfl
  all_goals cases h

theorem fault_of_finish (h : s.finish = .error fault) :
    fault = .unexpectedToken s.expected (Token.describe? none) := by
  unfold finish at h
  split at h
  · cases h
  · cases h
    rfl

theorem eq_identifier_of_step {t : State} {name : String} (h : s.step token = .ok t)
    (ht : t.spot = .name name) : token = .identifier name := by
  cases advance_of_step h with
  | moved hspot =>
    obtain rfl : _ = Spot.name name := ht
    have hlast := congrArg List.getLast? hspot
    simpa [Spot.tokens, eq_comm] using hlast
  | called => cases ht
  | completed => cases ht
  | opened => cases ht
  | connected => cases ht
  | closed => cases ht

theorem exists_step_of_run_concat {t : State} (h : s.run (tokens ++ [token]) = .ok t) :
    ∃ before, s.run tokens = .ok before ∧ before.step token = .ok t := by
  rw [run_append] at h
  cases hbefore : s.run tokens with
  | error fault =>
    rw [hbefore] at h
    cases h
  | ok before =>
    rw [hbefore] at h
    cases hlast : before.step token with
    | error fault => simp [run, hlast, bind, Except.bind] at h
    | ok last =>
      simp only [run, hlast, bind, Except.bind] at h
      exact ⟨before, rfl, hlast.trans h⟩

theorem exists_of_run_name {name : String} (h : start.run tokens = .ok s)
    (hs : s.spot = .name name) : ∃ before, tokens = before ++ [.identifier name] := by
  obtain rfl | ⟨before, last, rfl⟩ := List.eq_nil_or_concat tokens
  · cases h
    cases hs
  · rw [List.concat_eq_append] at h ⊢
    obtain ⟨t, -, hlast⟩ := exists_step_of_run_concat h
    exact ⟨before, by rw [eq_identifier_of_step hlast hs]⟩

end State

end Parser

namespace Condition

def Complete (tokens : List Token) : Prop :=
  ∃ text c, Token.scan text.toList = .ok tokens ∧ parse text = .ok c

def Begins (tokens : List Token) : Prop := ∃ more, Complete (tokens ++ more)

variable {tokens : List Token} {s : Parser.State} {fault : ExpressionFault}

theorem parse_of_scan_eq {text : String} (h : Token.scan text.toList = .ok tokens) :
    parse text = ofTokens tokens := by
  rw [parse, h]
  rfl

theorem complete_iff_of_lexical (htokens : ∀ token ∈ tokens, token.Lexical) :
    Complete tokens ↔ ∃ c, ofTokens tokens = .ok c := by
  constructor
  · rintro ⟨text, c, hscan, hparse⟩
    exact ⟨c, (parse_of_scan_eq hscan).symm.trans hparse⟩
  · rintro ⟨c, hread⟩
    have hscan := Token.scan_intercalate htokens
    exact ⟨_, c, hscan, (parse_of_scan_eq hscan).trans hread⟩

theorem begins_of_run (htokens : ∀ token ∈ tokens, token.Lexical)
    (h : Parser.State.start.run tokens = .ok s) : Begins tokens := by
  obtain ⟨t, c, hrun, hfinish⟩ := s.exists_finish_completion
  have hlexical := List.forall_mem_append.mpr ⟨htokens, s.lexical_completion⟩
  refine ⟨s.completion, (complete_iff_of_lexical hlexical).mpr ⟨c, ?_⟩⟩
  rw [ofTokens, Parser.State.run_append_of_ok h, hrun]
  exact hfinish

theorem not_begins_of_run (h : Parser.State.start.run tokens = .error fault) :
    ¬ Begins tokens := by
  rintro ⟨more, text, c, hscan, hparse⟩
  rw [parse_of_scan_eq hscan, ofTokens, Parser.State.run_append, h] at hparse
  cases hparse

end Condition

/-- The fault is at the first place where no condition can go on: at a token, at the end, or at the
parenthesis after a name that is no function. -/
inductive PointsAt (tokens : List Token) : ExpressionFault → Prop
  | token {before token after} (expected : String) : tokens = before ++ token :: after →
      Condition.Begins before → ¬ Condition.Begins (before ++ [token]) →
      PointsAt tokens (.unexpectedToken expected token.describe)
  | ending (expected : String) : Condition.Begins tokens → ¬ Condition.Complete tokens →
      PointsAt tokens (.unexpectedToken expected "end of input")
  | function {before name after} : tokens = before ++ .identifier name :: .lparen :: after →
      Condition.Begins (before ++ [.identifier name]) →
      ¬ Condition.Begins (before ++ [.identifier name, .lparen]) →
      PointsAt tokens (.unknownFunction name)

/-- A text without lexical fault that is no condition is told to be wrong at its first wrong token,
and told nothing else. -/
theorem first_wrong_token {text : String} {tokens : List Token} {fault : ExpressionFault}
    (hscan : Token.scan text.toList = .ok tokens) (h : Condition.parse text = .error fault) :
    PointsAt tokens fault := by
  have hlexical := Token.lexical_of_scan hscan
  have hread : Condition.ofTokens tokens = .error fault :=
    (Condition.parse_of_scan_eq hscan).symm.trans h
  cases hrun : Parser.State.start.run tokens with
  | ok s =>
    -- All tokens are read, so the text ends too early.
    rw [Condition.ofTokens, hrun] at hread
    rw [Parser.State.fault_of_finish hread]
    refine .ending _ (Condition.begins_of_run hlexical hrun) fun hcomplete => ?_
    obtain ⟨c, hc⟩ := (Condition.complete_iff_of_lexical hlexical).mp hcomplete
    rw [Condition.ofTokens, hrun] at hc
    cases hc.symm.trans hread
  | error own =>
    rw [Condition.ofTokens, hrun] at hread
    obtain rfl : own = fault := Except.error.inj hread
    obtain ⟨before, token, after, t, rfl, hbefore, hstep⟩ :=
      Parser.State.exists_step_of_run_error hrun
    obtain ⟨hlexical, -⟩ := List.forall_mem_append.mp hlexical
    have hbegins := Condition.begins_of_run hlexical hbefore
    have hfails : Parser.State.start.run (before ++ [token]) = .error own := by
      rw [Parser.State.run_append_of_ok hbefore, Parser.State.run, hstep]
      rfl
    have hstuck := Condition.not_begins_of_run hfails
    obtain rfl | ⟨name, hspot, rfl, rfl⟩ := Parser.State.fault_of_step hstep
    · exact .token _ rfl hbegins hstuck
    · obtain ⟨before, rfl⟩ := Parser.State.exists_of_run_name hbefore hspot
      rw [List.append_assoc] at hstuck
      exact .function (List.append_assoc ..) hbegins hstuck

theorem first_wrong_token_of_two :
    Condition.parse "(a in (1," = .error (.unexpectedToken "literal" "end of input") ∧
      PointsAt [.lparen, .identifier "a", .keyword .among, .lparen, .literal (.number "1"), .comma]
        (.unexpectedToken "literal" "end of input") ∧
      Condition.parse "a = 1 or Sum()" = .error (.unknownFunction "Sum") ∧
      PointsAt [.identifier "a", .comparator .equal, .literal (.number "1"), .keyword .or,
        .identifier "Sum", .lparen, .rparen] (.unknownFunction "Sum") := by
  have hlist : Token.scan "(a in (1,".toList =
      .ok [.lparen, .identifier "a", .keyword .among, .lparen, .literal (.number "1"), .comma] := by
    with_unfolding_all rfl
  have hcall : Token.scan "a = 1 or Sum()".toList =
      .ok [.identifier "a", .comparator .equal, .literal (.number "1"), .keyword .or,
        .identifier "Sum", .lparen, .rparen] := by
    with_unfolding_all rfl
  have hopen : Condition.parse "(a in (1," =
      .error (.unexpectedToken "literal" "end of input") := by
    with_unfolding_all rfl
  have hunknown : Condition.parse "a = 1 or Sum()" = .error (.unknownFunction "Sum") := by
    with_unfolding_all rfl
  exact ⟨hopen, first_wrong_token hlist hopen, hunknown, first_wrong_token hcall hunknown⟩

end KeyedTable
