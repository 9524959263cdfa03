import KeyedTable.Proofs.Condition.Resolving

namespace KeyedTable

namespace Parser.State

theorem step_name_lparen {s t : State} {name : String}
    (h : s.run [.identifier name, .lparen] = .ok t) :
    s.spot = .term ∧ ∃ f, FunctionName.ofIdentifier? name = some f ∧
      t = s.moveTo (.segment (pathUse f) none) := by
  obtain ⟨pending, groups, spot⟩ := s
  cases spot with
  | term =>
    cases hf : FunctionName.ofIdentifier? name with
    | none => simp [run, step, moveTo, hf, bind, Except.bind] at h
    | some f =>
      simp only [run, step, moveTo, hf, bind, Except.bind, Except.ok.injEq] at h
      exact ⟨rfl, f, rfl, h.symm⟩
  | segment use before => cases use <;> cases h
  | path use path => cases use <;> cases h
  | _ => cases h

theorem run_respelled {s t : State} {ts us : List Token} (h : Respelled ts us)
    (hrun : s.run ts = .ok t) : s.run us = .ok t := by
  induction h generalizing s with
  | nil => exact hrun
  | @cons ts us token _ ih =>
    cases hstep : s.step token with
    | error fault => simp [run, hstep, bind, Except.bind] at hrun
    | ok next =>
      rw [run_cons hstep] at hrun ⊢
      exact ih hrun
  | @function ts us name f hf _ ih =>
    have hsplit : s.run ([f.token, .lparen] ++ ts) = .ok t := hrun
    rw [run_append] at hsplit
    cases hcall : s.run [f.token, .lparen] with
    | error fault => rw [hcall] at hsplit; cases hsplit
    | ok next =>
      rw [hcall] at hsplit
      obtain ⟨hspot, f', hf', rfl⟩ := step_name_lparen hcall
      obtain rfl : f = f' := Option.some.inj (f.ofIdentifier?_spelling.symm.trans hf')
      have hrenamed : s.run [.identifier name, .lparen] =
          .ok (s.moveTo (.segment (pathUse f) none)) := by
        obtain ⟨pending, groups, spot⟩ := s
        subst hspot
        simp [run, step, moveTo, hf, bind, Except.bind]
      exact (run_append_of_ok hrenamed).trans (ih hsplit)

end Parser.State

namespace Token

@[simp] theorem lexical_keyword (word : Keyword) : (keyword word).Lexical := trivial

@[simp] theorem lexical_comparator (sign : Comparator) : (comparator sign).Lexical := trivial

@[simp] theorem lexical_dot : dot.Lexical := trivial

@[simp] theorem lexical_comma : comma.Lexical := trivial

@[simp] theorem lexical_lparen : lparen.Lexical := trivial

@[simp] theorem lexical_rparen : rparen.Lexical := trivial

theorem scan_intercalate {tokens : List Token} (h : ∀ token ∈ tokens, token.Lexical) :
    scan (String.intercalate " " (tokens.map spelling)).toList = .ok tokens := by
  induction tokens with
  | nil => rw [List.map_nil, String.intercalate_nil]; simp [scan]
  | cons token rest ih =>
    obtain ⟨htoken, hrest⟩ := List.forall_mem_cons.mp h
    cases rest with
    | nil =>
      have hends : token.Ends [] := token.ends_of_isBlank (by simp)
      have hspelling := scan_spelling htoken hends
      simpa [scan, Except.map] using hspelling
    | cons next rest =>
      have hblank := scan_of_isBlank (c := ' ')
        (String.intercalate " " ((next :: rest).map spelling)).toList (by decide)
      have hends : token.Ends
          (' ' :: (String.intercalate " " ((next :: rest).map spelling)).toList) :=
        token.ends_of_isBlank fun c hc => by cases hc; decide
      have hspelling := scan_spelling htoken hends
      rw [hblank, ih hrest] at hspelling
      simpa [String.intercalate_cons_cons, Except.map] using hspelling

theorem lexical_separated {α : Type} {separator : Token} {write : α → Token} {xs : List α}
    (h : separator.Lexical) :
    (∀ token ∈ xs.flatMap fun x => [separator, write x], token.Lexical) ↔
      ∀ x ∈ xs, (write x).Lexical := by
  induction xs with
  | nil => simp
  | cons x xs ih =>
    rw [List.flatMap_cons, List.forall_mem_append, ih]
    simp [h]

end Token

theorem Path.lexical_tokens {path : Path} :
    (∀ token ∈ path.tokens, token.Lexical) ↔
      ∀ segment ∈ path.segments, Token.IsName segment := by
  rw [Path.tokens, Path.segments, List.forall_mem_cons, List.forall_mem_cons,
    Token.lexical_separated Token.lexical_dot]
  exact Iff.rfl

theorem FunctionName.lexical_call (f : FunctionName) (path : Path) {ts : List Token} :
    (∀ token ∈ f.token :: .lparen :: path.tokens ++ ts, token.Lexical) ↔
      (∀ segment ∈ path.segments, Token.IsName segment) ∧ ∀ token ∈ ts, token.Lexical := by
  rw [List.cons_append, List.forall_mem_cons, List.cons_append, List.forall_mem_cons,
    List.forall_mem_append, Path.lexical_tokens]
  simp [f.lexical_token]

namespace Condition

structure Writable (c : Condition) : Prop where
  names : ∀ segment ∈ c.segments, Token.IsName segment
  literals : ∀ value ∈ c.literals, (Token.literal value).Lexical

theorem lexical_tokens {c : Condition} :
    (∀ token ∈ c.tokens, token.Lexical) ↔
      (∀ segment ∈ c.segments, Token.IsName segment) ∧
        ∀ value ∈ c.literals, (Token.literal value).Lexical := by
  induction c with
  | compare path sign value =>
    rw [tokens, List.forall_mem_append, Path.lexical_tokens]
    simp [segments, literals]
  | between path low high =>
    rw [tokens, List.forall_mem_append, Path.lexical_tokens]
    simp [segments, literals]
  | among path first others =>
    rw [tokens, List.forall_mem_append, List.forall_mem_append, Path.lexical_tokens,
      List.forall_mem_cons, List.forall_mem_cons, List.forall_mem_cons,
      Token.lexical_separated Token.lexical_comma]
    simp [segments, literals]
  | presence test path =>
    rw [tokens, FunctionName.lexical_call]
    simp [segments, literals]
  | feature test path argument =>
    rw [tokens, FunctionName.lexical_call]
    simp [segments, literals]
  | size path sign value =>
    rw [tokens, FunctionName.lexical_call]
    simp [segments, literals]
  | join connective left right ihl ihr =>
    rw [tokens, List.forall_mem_append, List.forall_mem_cons, ihl, ihr, segments, literals,
      List.forall_mem_append, List.forall_mem_append]
    simp [and_assoc, and_left_comm]
  | group inner ih =>
    rw [tokens, List.cons_append, List.forall_mem_cons, List.forall_mem_append, ih]
    simp [segments, literals]

theorem wellFormed_iff {c : Condition} : c.WellFormed ↔ c.LeftGrouped ∧ c.Writable := by
  constructor
  · intro h
    obtain ⟨hnames, hliterals⟩ := lexical_tokens.mp h.lexical
    exact ⟨h.leftGrouped, hnames, hliterals⟩
  · rintro ⟨hgrouped, hwritable⟩
    exact ⟨hgrouped, lexical_tokens.mpr ⟨hwritable.names, hwritable.literals⟩⟩

theorem ofTokens_respelled {c : Condition} {ts : List Token} (h : c.LeftGrouped)
    (hts : Respelled c.tokens ts) : ofTokens ts = .ok c := by
  have hwritten : Parser.State.start.run c.tokens = .ok (Parser.State.start.complete c) :=
    Parser.State.run_tokens h fun _ => rfl
  rw [ofTokens, Parser.State.run_respelled hts hwritten]
  rfl

theorem parse_print {c : Condition} (h : c.WellFormed) : parse c.print = .ok c :=
  parse_of_scan h.leftGrouped (Token.scan_intercalate h.lexical)

end Condition

/-- A text is read as a tree exactly if it writes out the tree, which then groups from the left and
has names and literals of the language. Every such tree is read back from its own print. -/
theorem parse_eq_ok_iff (c : Condition) :
    (∀ text, Condition.parse text = .ok c ↔
      (c.LeftGrouped ∧ c.Writable) ∧
        ∃ tokens, Token.scan text.toList = .ok tokens ∧ Respelled c.tokens tokens) ∧
      (Condition.parse c.print = .ok c ↔ c.LeftGrouped ∧ c.Writable) := by
  refine ⟨fun text => ⟨fun h => ?_, ?_⟩, ?_, ?_⟩
  · obtain ⟨tokens, hscan, htokens⟩ := Condition.exists_scan_of_parse h
    exact ⟨Condition.wellFormed_iff.mp (Condition.wellFormed_of_parse h), tokens, hscan,
      (Condition.of_ofTokens htokens).2⟩
  · rintro ⟨hwell, tokens, hscan, hspelled⟩
    rw [Condition.parse, hscan]
    exact Condition.ofTokens_respelled hwell.1 hspelled
  · exact fun h => Condition.wellFormed_iff.mp (Condition.wellFormed_of_parse h)
  · exact fun h => Condition.parse_print (Condition.wellFormed_iff.mpr h)

example : Condition.parse "SIZE = 1 or Size(size) > 1" =
    .ok (.join .or (.compare ⟨"SIZE", []⟩ .equal (.number "1"))
      (.size ⟨"size", []⟩ .greater (.number "1"))) := by
  with_unfolding_all rfl

end KeyedTable
