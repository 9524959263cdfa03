import KeyedTable.Condition.Parser
import KeyedTable.Condition.Printer

namespace KeyedTable

namespace Condition

def isJoin : Condition → Bool
  | .join _ _ _ => true
  | _ => false

/-- No chain stands on the right of a connective without parentheses. -/
def LeftGrouped : Condition → Prop
  | .join _ left right => left.LeftGrouped ∧ right.LeftGrouped ∧ right.isJoin = false
  | .group inner => inner.LeftGrouped
  | _ => True

end Condition

theorem FunctionName.ofIdentifier?_spelling (f : FunctionName) :
    ofIdentifier? f.spelling = some f := by
  cases f with
  | presence test => cases test <;> decide
  | feature test => cases test <;> decide
  | size => decide

/-- The second list writes the names of functions in other letter cases, no more. -/
inductive Respelled : List Token → List Token → Prop
  | nil : Respelled [] []
  | cons {ts us} (token : Token) : Respelled ts us → Respelled (token :: ts) (token :: us)
  | function {ts us name f} : FunctionName.ofIdentifier? name = some f → Respelled ts us →
      Respelled (f.token :: .lparen :: ts) (.identifier name :: .lparen :: us)

namespace Parser.State

variable {pending : Pending} {groups : List Pending} {ts us : List Token}

theorem run_cons {s t : State} {token : Token} (h : s.step token = .ok t) :
    s.run (token :: ts) = t.run ts := by
  simp [run, h, bind, Except.bind]

theorem run_append_of_ok {s t : State} (h : s.run ts = .ok t) : s.run (ts ++ us) = t.run us := by
  rw [run_append, h]
  rfl

theorem run_segments (use : PathUse) (path : Path) (rest : List String) :
    State.run ⟨pending, groups, .path use path⟩
        (rest.flatMap fun segment => [.dot, .identifier segment]) =
      .ok ⟨pending, groups, .path use ⟨path.first, path.rest ++ rest⟩⟩ := by
  induction rest generalizing path with
  | nil => simp [run]
  | cons segment rest ih =>
    have hdot : State.step ⟨pending, groups, .path use path⟩ .dot =
        .ok ⟨pending, groups, .segment use path⟩ := by
      cases use <;> rfl
    have hsegment : State.step ⟨pending, groups, .segment use path⟩ (.identifier segment) =
        .ok ⟨pending, groups, .path use ⟨path.first, path.rest ++ [segment]⟩⟩ := rfl
    rw [List.flatMap_cons, List.cons_append, List.cons_append, List.nil_append, run_cons hdot,
      run_cons hsegment, ih]
    simp

theorem run_path (use : PathUse) (path : Path) :
    State.run ⟨pending, groups, .segment use none⟩ path.tokens =
      .ok ⟨pending, groups, .path use path⟩ := by
  have hfirst : State.step ⟨pending, groups, .segment use none⟩ (.identifier path.first) =
      .ok ⟨pending, groups, .path use ⟨path.first, []⟩⟩ := rfl
  rw [Path.tokens, run_cons hfirst, run_segments]
  rfl

theorem run_predicate (path : Path) (token : Token) (t : State) (h : token ≠ .lparen)
    (ht : ∀ spot, State.stepPredicate ⟨pending, groups, spot⟩ path token = .ok t) :
    State.run ⟨pending, groups, .term⟩ (path.tokens ++ token :: ts) = t.run ts := by
  obtain ⟨first, rest⟩ := path
  have hname : State.step ⟨pending, groups, .term⟩ (.identifier first) =
      .ok ⟨pending, groups, .name first⟩ := rfl
  cases rest with
  | nil =>
    have hstep : State.step ⟨pending, groups, .name first⟩ token = .ok t := by
      rw [← ht (.name first)]
      cases token with
      | lparen => exact absurd rfl h
      | _ => rfl
    exact (run_cons hname).trans (run_cons hstep)
  | cons segment rest =>
    have hdot : State.step ⟨pending, groups, .name first⟩ .dot =
        .ok ⟨pending, groups, .segment .predicate (some ⟨first, []⟩)⟩ := rfl
    have hsegment : State.step ⟨pending, groups, .segment .predicate (some ⟨first, []⟩)⟩
        (.identifier segment) = .ok ⟨pending, groups, .path .predicate ⟨first, [segment]⟩⟩ := rfl
    have hstep : State.step ⟨pending, groups, .path .predicate ⟨first, segment :: rest⟩⟩ token =
        .ok t := by
      rw [← ht (.path .predicate ⟨first, segment :: rest⟩)]
      rfl
    have hsegments : State.run ⟨pending, groups, .path .predicate ⟨first, [segment]⟩⟩
        (rest.flatMap fun segment => [.dot, .identifier segment]) = _ := run_segments ..
    simp only [Path.tokens, List.flatMap_cons, List.cons_append, List.nil_append, run_cons hname,
      run_cons hdot, run_cons hsegment, run_append_of_ok hsegments]
    exact run_cons hstep

theorem run_call (f : FunctionName) (path : Path) :
    State.run ⟨pending, groups, .term⟩ (f.token :: .lparen :: path.tokens ++ ts) =
      State.run ⟨pending, groups, .path (pathUse f) path⟩ ts := by
  have hname : State.step ⟨pending, groups, .term⟩ f.token =
      .ok ⟨pending, groups, .name f.spelling⟩ := rfl
  have hparen : State.step ⟨pending, groups, .name f.spelling⟩ .lparen =
      .ok ⟨pending, groups, .segment (pathUse f) none⟩ := by
    simp [step, f.ofIdentifier?_spelling, moveTo]
  rw [List.cons_append, List.cons_append, run_cons hname, run_cons hparen,
    run_append_of_ok (run_path _ path)]

theorem run_elements (path : Path) (first : Literal) (before others : List Literal) :
    State.run ⟨pending, groups, .elementRead path first before⟩
        (others.flatMap fun value => [.comma, .literal value]) =
      .ok ⟨pending, groups, .elementRead path first (before ++ others)⟩ := by
  induction others generalizing before with
  | nil => simp [run]
  | cons value others ih =>
    have hcomma : State.step ⟨pending, groups, .elementRead path first before⟩ .comma =
        .ok ⟨pending, groups, .literal (.nextOf path first before)⟩ := rfl
    have hvalue : State.step ⟨pending, groups, .literal (.nextOf path first before)⟩
        (.literal value) = .ok ⟨pending, groups, .elementRead path first (before ++ [value])⟩ := rfl
    rw [List.flatMap_cons, List.cons_append, List.cons_append, List.nil_append, run_cons hcomma,
      run_cons hvalue, ih]
    simp

theorem run_tokens {c : Condition} (h : c.LeftGrouped)
    (hc : c.isJoin = true → pending = none) :
    State.run ⟨pending, groups, .term⟩ c.tokens =
      .ok (State.complete ⟨pending, groups, .term⟩ c) := by
  -- Left terms are read with nothing before them, groups with one more group around them.
  induction c generalizing pending groups with
  | compare path sign value =>
    exact run_predicate path (.comparator sign) ⟨pending, groups, .literal (.compare path sign)⟩
      (by simp) fun _ => rfl
  | between path low high =>
    exact run_predicate path (.keyword .between) ⟨pending, groups, .literal (.low path)⟩
      (by simp) fun _ => rfl
  | among path first others =>
    have hread : State.run ⟨pending, groups, .elementRead path first []⟩
        (others.flatMap fun value => [.comma, .literal value]) = _ := run_elements ..
    rw [Condition.tokens, List.append_assoc]
    refine (run_predicate path (.keyword .among) ⟨pending, groups, .amongRead path⟩
      (by simp) fun _ => rfl).trans ?_
    exact run_append_of_ok hread
  | presence test path => exact run_call (.presence test) path
  | feature test path argument => exact run_call (.feature test) path
  | size path sign value => exact run_call .size path
  | join connective left right ihl ihr =>
    obtain ⟨hleft, hright, hjoin⟩ := h
    obtain rfl := hc rfl
    have hl : State.run ⟨none, groups, .term⟩ left.tokens = .ok ⟨none, groups, .joined left⟩ :=
      ihl hleft fun _ => rfl
    have hword : State.step ⟨none, groups, .joined left⟩ (.keyword connective.keyword) =
        .ok ⟨some (left, connective), groups, .term⟩ := by
      cases connective <;> rfl
    have hr : State.run ⟨some (left, connective), groups, .term⟩ right.tokens =
        .ok ⟨none, groups, .joined (.join connective left right)⟩ :=
      ihr hright fun hj => absurd hj (by simp [hjoin])
    rw [Condition.tokens, run_append_of_ok hl, run_cons hword, hr]
    rfl
  | group inner ih =>
    have hopen : State.step ⟨pending, groups, .term⟩ .lparen =
        .ok ⟨none, pending :: groups, .term⟩ := rfl
    have hinner : State.run ⟨none, pending :: groups, .term⟩ inner.tokens =
        .ok ⟨none, pending :: groups, .joined inner⟩ := ih h fun _ => rfl
    rw [Condition.tokens, List.cons_append, run_cons hopen, run_append_of_ok hinner]
    rfl

end Parser.State

theorem Condition.ofTokens_tokens {c : Condition} (h : c.LeftGrouped) :
    ofTokens c.tokens = .ok c := by
  rw [ofTokens, Parser.State.start, Parser.State.run_tokens h fun _ => rfl]
  rfl

namespace Parser

def Pending.tokens : Pending → List Token
  | none => []
  | some (left, connective) => left.tokens ++ [.keyword connective.keyword]

def PathUse.opening : PathUse → List Token
  | .predicate => []
  | .presence test => [(FunctionName.presence test).token, .lparen]
  | .feature test => [(FunctionName.feature test).token, .lparen]
  | .size => [FunctionName.size.token, .lparen]

def LiteralUse.tokens : LiteralUse → List Token
  | .compare path sign => path.tokens ++ [.comparator sign]
  | .low path => path.tokens ++ [.keyword .between]
  | .high path lower => path.tokens ++ [.keyword .between, .literal lower, .keyword .and]
  | .firstOf path => path.tokens ++ [.keyword .among, .lparen]
  | .nextOf path first others =>
    path.tokens ++ .keyword .among :: .lparen :: .literal first ::
      others.flatMap (fun value => [.comma, .literal value]) ++ [.comma]
  | .argument test path => (PathUse.feature test).opening ++ path.tokens ++ [.comma]
  | .size path sign => PathUse.size.opening ++ path.tokens ++ [.rparen, .comparator sign]

def Spot.tokens : Spot → List Token
  | .term => []
  | .name word => [.identifier word]
  | .segment use none => use.opening
  | .segment use (some before) => use.opening ++ before.tokens ++ [.dot]
  | .path use read => use.opening ++ read.tokens
  | .literal use => use.tokens
  | .lowRead read low => read.tokens ++ [.keyword .between, .literal low]
  | .amongRead read => read.tokens ++ [.keyword .among]
  | .elementRead read first others =>
    read.tokens ++ .keyword .among :: .lparen :: .literal first ::
      others.flatMap fun value => [.comma, .literal value]
  | .argumentRead test read argument =>
    (PathUse.feature test).opening ++ read.tokens ++ [.comma, .literal argument]
  | .sizeRead read => PathUse.size.opening ++ read.tokens ++ [.rparen]
  | .joined left => left.tokens

namespace State

def tokens (s : State) : List Token :=
  s.groups.reverse.flatMap (fun pending => pending.tokens ++ [.lparen]) ++ s.pending.tokens ++
    s.spot.tokens

/-- What a step can do. -/
inductive Advance : State → Token → State → Prop
  | moved {s : State} {spot : Spot} {token : Token} :
      spot.tokens = s.spot.tokens ++ [token] → (∀ left, spot ≠ .joined left) →
      Advance s token (s.moveTo spot)
  | called {s : State} {name : String} {f : FunctionName} :
      s.spot = .name name → FunctionName.ofIdentifier? name = some f →
      Advance s .lparen (s.moveTo (.segment (pathUse f) none))
  | completed {s : State} {term : Condition} {token : Token} :
      term.tokens = s.spot.tokens ++ [token] → term.LeftGrouped → term.isJoin = false →
      Advance s token (s.complete term)
  | opened {s : State} :
      s.spot = .term → Advance s .lparen ⟨none, s.pending :: s.groups, .term⟩
  | connected {s : State} {left : Condition} (connective : Connective) :
      s.spot = .joined left →
      Advance s (.keyword connective.keyword)
        { s with pending := some (left, connective), spot := .term }
  | closed {s : State} {left : Condition} {pending : Pending} {groups : List Pending} :
      s.spot = .joined left → s.groups = pending :: groups →
      Advance s .rparen ⟨none, groups, .joined (attach pending (.group left))⟩

variable {s t : State} {token : Token}

theorem advance_stepPredicate {path : Path} (hs : s.spot.tokens = path.tokens)
    (h : s.stepPredicate path token = .ok t) : Advance s token t := by
  cases token with
  | dot => cases h; exact .moved (by rw [hs]; rfl) (by simp)
  | comparator sign => cases h; exact .moved (by rw [hs]; rfl) (by simp)
  | keyword word =>
    cases word with
    | between => cases h; exact .moved (by rw [hs]; rfl) (by simp)
    | among => cases h; exact .moved (by rw [hs]; rfl) (by simp)
    | _ => cases h
  | _ => cases h

theorem advance_stepLiteral {value : Literal} {use : LiteralUse} (hs : s.spot = .literal use) :
    Advance s (.literal value) (s.stepLiteral value use) := by
  have hspot : s.spot.tokens = use.tokens := by rw [hs]; rfl
  cases use with
  | compare path sign =>
    exact .completed (by rw [hspot]; simp [Condition.tokens, LiteralUse.tokens]) trivial rfl
  | low path => exact .moved (by rw [hspot]; simp [Spot.tokens, LiteralUse.tokens]) (by simp)
  | high path low =>
    exact .completed (by rw [hspot]; simp [Condition.tokens, LiteralUse.tokens]) trivial rfl
  | firstOf path => exact .moved (by rw [hspot]; simp [Spot.tokens, LiteralUse.tokens]) (by simp)
  | nextOf path first others =>
    exact .moved (by rw [hspot]; simp [Spot.tokens, LiteralUse.tokens]) (by simp)
  | argument test path =>
    exact .moved (by rw [hspot]; simp [Spot.tokens, LiteralUse.tokens]) (by simp)
  | size path sign =>
    exact .completed (by rw [hspot]; simp [Condition.tokens, LiteralUse.tokens, PathUse.opening])
      trivial rfl

theorem advance_stepJoined {left : Condition} (hs : s.spot = .joined left)
    (h : s.stepJoined left token = .ok t) : Advance s token t := by
  cases token with
  | keyword word =>
    cases word with
    | and => cases h; exact .connected .and hs
    | or => cases h; exact .connected .or hs
    | _ => cases h
  | rparen =>
    cases hg : s.groups with
    | nil => simp [stepJoined, hg, unexpected] at h
    | cons pending groups =>
      simp only [stepJoined, hg, Except.ok.injEq] at h
      exact h ▸ .closed hs hg
  | _ => cases h

theorem advance_of_step (h : s.step token = .ok t) : Advance s token t := by
  obtain ⟨pending, groups, spot⟩ := s
  cases spot with
  | term =>
    cases token with
    | lparen => cases h; exact .opened rfl
    | identifier name => cases h; exact .moved rfl (by simp)
    | _ => cases h
  | name name =>
    have hname : Spot.tokens (.name name) = Path.tokens ⟨name, []⟩ := rfl
    cases token with
    | lparen =>
      cases hf : FunctionName.ofIdentifier? name with
      | none => simp [step, hf] at h
      | some f =>
        simp only [step, hf, Except.ok.injEq] at h
        exact h ▸ .called rfl hf
    | _ => exact advance_stepPredicate hname h
  | segment use before =>
    cases token with
    | identifier name =>
      cases h
      cases before with
      | none => exact .moved (by simp [Spot.tokens, append, Path.tokens]) (by simp)
      | some path => exact .moved (by simp [Spot.tokens, append, Path.tokens]) (by simp)
    | _ => cases h
  | path use path =>
    cases use with
    | predicate => exact advance_stepPredicate (by simp [Spot.tokens, PathUse.opening]) h
    | presence test =>
      cases token with
      | dot => cases h; exact .moved (by simp [Spot.tokens]) (by simp)
      | rparen =>
        cases h
        exact .completed (by simp [Condition.tokens, Spot.tokens, PathUse.opening]) trivial rfl
      | _ => cases h
    | feature test =>
      cases token with
      | dot => cases h; exact .moved (by simp [Spot.tokens]) (by simp)
      | comma => cases h; exact .moved (by simp [Spot.tokens, LiteralUse.tokens]) (by simp)
      | _ => cases h
    | size =>
      cases token with
      | dot => cases h; exact .moved (by simp [Spot.tokens]) (by simp)
      | rparen => cases h; exact .moved (by simp [Spot.tokens]) (by simp)
      | _ => cases h
  | literal use =>
    cases token with
    | literal value => cases h; exact advance_stepLiteral rfl
    | _ => cases h
  | lowRead path low =>
    cases token with
    | keyword word =>
      cases word with
      | and => cases h; exact .moved (by simp [Spot.tokens, LiteralUse.tokens]) (by simp)
      | _ => cases h
    | _ => cases h
  | amongRead path =>
    cases token with
    | lparen => cases h; exact .moved (by simp [Spot.tokens, LiteralUse.tokens]) (by simp)
    | _ => cases h
  | elementRead path first others =>
    cases token with
    | comma => cases h; exact .moved (by simp [Spot.tokens, LiteralUse.tokens]) (by simp)
    | rparen => cases h; exact .completed (by simp [Condition.tokens, Spot.tokens]) trivial rfl
    | _ => cases h
  | argumentRead test path argument =>
    cases token with
    | rparen =>
      cases h
      exact .completed (by simp [Condition.tokens, Spot.tokens, PathUse.opening]) trivial rfl
    | _ => cases h
  | sizeRead path =>
    cases token with
    | comparator sign =>
      cases h
      exact .moved (by simp [Spot.tokens, LiteralUse.tokens]) (by simp)
    | _ => cases h
  | joined left => exact advance_stepJoined rfl h

/-- Whatever has been read in full groups from the left, and a term that is joined to what stood
before it no longer waits for it. -/
structure Sound (s : State) : Prop where
  pending : ∀ left connective, s.pending = some (left, connective) → left.LeftGrouped
  groups : ∀ left connective, some (left, connective) ∈ s.groups → left.LeftGrouped
  joined : ∀ left, s.spot = .joined left → s.pending = none ∧ left.LeftGrouped

theorem sound_start : start.Sound where
  pending _ _ h := by cases h
  groups _ _ h := by cases h
  joined _ h := by cases h

theorem leftGrouped_attach {pending : Pending} {term : Condition}
    (hpending : ∀ left connective, pending = some (left, connective) → left.LeftGrouped)
    (hterm : term.LeftGrouped) (hjoin : term.isJoin = false) :
    (attach pending term).LeftGrouped := by
  cases pending with
  | none => exact hterm
  | some before => exact ⟨hpending before.1 before.2 rfl, hterm, hjoin⟩

theorem Advance.sound (h : Advance s token t) (hs : s.Sound) : t.Sound := by
  cases h with
  | moved _ hspot => exact ⟨hs.pending, hs.groups, fun left hleft => absurd hleft (hspot left)⟩
  | called => exact ⟨hs.pending, hs.groups, by simp [moveTo]⟩
  | completed _ hterm hjoin =>
    refine ⟨by simp [complete], hs.groups, fun left hleft => ⟨rfl, ?_⟩⟩
    cases hleft
    exact leftGrouped_attach hs.pending hterm hjoin
  | opened =>
    refine ⟨by simp, fun left connective hmem => ?_, by simp⟩
    cases List.mem_cons.mp hmem with
    | inl hmem => exact hs.pending left connective hmem.symm
    | inr hmem => exact hs.groups left connective hmem
  | connected connective hspot =>
    refine ⟨fun left connective hleft => ?_, hs.groups, by simp⟩
    cases hleft
    exact (hs.joined _ hspot).2
  | closed hspot hgroups =>
    have hgroups' := hs.groups
    rw [hgroups] at hgroups'
    refine ⟨by simp,
      fun left connective hmem => hgroups' left connective (List.mem_cons_of_mem _ hmem),
      fun left hleft => ⟨rfl, ?_⟩⟩
    cases hleft
    refine leftGrouped_attach (fun left connective hpending => ?_) (hs.joined _ hspot).2 rfl
    exact hgroups' left connective (hpending ▸ List.mem_cons_self)

theorem tokens_attach (pending : Pending) (term : Condition) :
    (attach pending term).tokens = pending.tokens ++ term.tokens := by
  cases pending with
  | none => rfl
  | some before => simp [attach, Pending.tokens, Condition.tokens]

theorem Advance.tokens_eq (h : Advance s token t) (hs : s.Sound) :
    t.tokens = s.tokens ++ [token] ∨
      ∃ before name f, FunctionName.ofIdentifier? name = some f ∧ token = .lparen ∧
        s.tokens = before ++ [.identifier name] ∧ t.tokens = before ++ [f.token, .lparen] := by
  cases h with
  | moved hspot => exact .inl (by simp [tokens, moveTo, hspot])
  | @called name f hspot hf =>
    refine .inr ⟨_, name, f, hf, rfl, by rw [tokens, hspot]; rfl, ?_⟩
    cases f <;> simp [tokens, moveTo, Spot.tokens, pathUse, PathUse.opening]
  | completed hterm =>
    left
    simp only [tokens, complete, Spot.tokens, tokens_attach, hterm]
    simp [Pending.tokens]
  | opened hspot => exact .inl (by simp [tokens, hspot, Pending.tokens, Spot.tokens])
  | connected connective hspot =>
    left
    simp [tokens, hspot, (hs.joined _ hspot).1, Pending.tokens, Spot.tokens]
  | closed hspot hgroups =>
    left
    simp only [tokens, hspot, hgroups, (hs.joined _ hspot).1, tokens_attach, Spot.tokens]
    simp [Pending.tokens, Condition.tokens]

end State

end Parser

theorem Respelled.refl (ts : List Token) : Respelled ts ts := by
  induction ts with
  | nil => exact .nil
  | cons token ts ih => exact .cons token ih

theorem Respelled.append {ts us vs ws : List Token} (h : Respelled ts us) (h' : Respelled vs ws) :
    Respelled (ts ++ vs) (us ++ ws) := by
  induction h with
  | nil => exact h'
  | cons token _ ih => exact .cons token ih
  | function hf _ ih => exact .function hf ih

theorem Respelled.of_append_identifier {ts us : List Token} {name : String}
    (h : Respelled (ts ++ [.identifier name]) us) :
    ∃ vs, us = vs ++ [.identifier name] ∧ Respelled ts vs := by
  -- Only a function takes two tokens at once, and its second one is no name.
  generalize hts : ts ++ [.identifier name] = whole at h
  induction h generalizing ts with
  | nil => simp at hts
  | @cons ts' us token h ih =>
    cases ts with
    | nil =>
      obtain ⟨rfl, rfl⟩ := List.cons.inj hts
      cases h
      exact ⟨[], rfl, .nil⟩
    | cons first ts =>
      obtain ⟨rfl, hrest⟩ := List.cons.inj hts
      obtain ⟨vs, rfl, hvs⟩ := ih hrest
      exact ⟨first :: vs, rfl, .cons first hvs⟩
  | @function ts' us name' f hf h ih =>
    match ts with
    | [] => simp at hts
    | [_] => simp at hts
    | _ :: _ :: ts =>
      simp only [List.cons_append, List.cons.injEq] at hts
      obtain ⟨rfl, rfl, hrest⟩ := hts
      obtain ⟨vs, rfl, hvs⟩ := ih hrest
      exact ⟨_, rfl, .function hf hvs⟩

namespace Parser.State

theorem respelled_step {s t : State} {token : Token} {ts : List Token} (hs : s.Sound)
    (hts : Respelled s.tokens ts) (h : s.step token = .ok t) :
    Respelled t.tokens (ts ++ [token]) := by
  cases (advance_of_step h).tokens_eq hs with
  | inl ht => exact ht ▸ hts.append (.refl [token])
  | inr ht =>
    obtain ⟨before, name, f, hf, rfl, hbefore, ht⟩ := ht
    obtain ⟨vs, rfl, hvs⟩ := (hbefore ▸ hts).of_append_identifier
    rw [ht, List.append_assoc]
    exact hvs.append (.function hf .nil)

theorem respelled_run {s t : State} {ts us : List Token} (hs : s.Sound)
    (hts : Respelled s.tokens ts) (h : s.run us = .ok t) :
    t.Sound ∧ Respelled t.tokens (ts ++ us) := by
  induction us generalizing s ts with
  | nil =>
    cases h
    exact ⟨hs, (List.append_nil ts).symm ▸ hts⟩
  | cons token us ih =>
    cases hstep : s.step token with
    | error fault => simp [run, hstep, bind, Except.bind] at h
    | ok next =>
      rw [run_cons hstep] at h
      have := ih ((advance_of_step hstep).sound hs) (respelled_step hs hts hstep) h
      rwa [List.append_assoc] at this

end Parser.State

namespace Condition

theorem of_ofTokens {ts : List Token} {c : Condition} (h : ofTokens ts = .ok c) :
    c.LeftGrouped ∧ Respelled c.tokens ts := by
  unfold ofTokens at h
  cases hrun : Parser.State.start.run ts with
  | error fault => simp [hrun, bind, Except.bind] at h
  | ok s =>
    simp only [hrun, bind, Except.bind] at h
    obtain ⟨hs, hts⟩ := Parser.State.respelled_run Parser.State.sound_start .nil hrun
    unfold Parser.State.finish at h
    split at h
    next hspot hgroups =>
      cases h
      obtain ⟨hpending, hc⟩ := hs.joined _ hspot
      refine ⟨hc, ?_⟩
      simpa [Parser.State.tokens, hspot, hgroups, hpending, Parser.Pending.tokens,
        Parser.Spot.tokens] using hts
    next => simp [Parser.State.unexpected] at h

end Condition

end KeyedTable
