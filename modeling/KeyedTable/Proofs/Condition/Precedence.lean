import KeyedTable.Condition.Evaluation
import KeyedTable.Proofs.Condition.Compiling

/-! Texts are read from the left, but a table reads what is sent to it with `and` before `or`. The
parentheses of the text are all that is sent, so the two readings may differ. -/

namespace KeyedTable

namespace Condition

def isOr : Condition → Bool
  | .join .or _ _ => true
  | _ => false

/-- Every `and` binds tighter than the `or` beside it, and chains of one kind group from the
left. -/
def AndsFirst : Condition → Prop
  | .join .and left right =>
    left.AndsFirst ∧ right.AndsFirst ∧ left.isOr = false ∧ right.isJoin = false
  | .join .or left right => left.AndsFirst ∧ right.AndsFirst ∧ right.isOr = false
  | .group inner => inner.AndsFirst
  | _ => True

def andLast : Condition → Condition → Condition
  | .join .or left right, term => .join .or left (.join .and right term)
  | c, term => .join .and c term

/-- The same tokens, grouped with `and` before `or`. -/
def regrouped : Condition → Condition
  | .join .and left right => left.regrouped.andLast right.regrouped
  | .join .or left right => .join .or left.regrouped right.regrouped
  | .group inner => .group inner.regrouped
  | c => c

theorem andLast_of_isOr {c : Condition} (term : Condition) (h : c.isOr = false) :
    c.andLast term = .join .and c term := by
  cases c with
  | join connective left right =>
    cases connective with
    | and => rfl
    | or => cases h
  | _ => rfl

@[simp] theorem tokens_andLast (c term : Condition) :
    (c.andLast term).tokens = c.tokens ++ .keyword .and :: term.tokens := by
  unfold andLast
  split <;> simp [tokens, Connective.keyword]

@[simp] theorem isJoin_andLast (c term : Condition) : (c.andLast term).isJoin = true := by
  unfold andLast
  split <;> rfl

@[simp] theorem isOr_andLast (c term : Condition) : (c.andLast term).isOr = c.isOr := by
  cases c with
  | join connective left right => cases connective <;> rfl
  | _ => rfl

@[simp] theorem tokens_regrouped (c : Condition) : c.regrouped.tokens = c.tokens := by
  induction c with
  | join connective left right ihl ihr =>
    cases connective <;> simp [regrouped, tokens, Connective.keyword, ihl, ihr]
  | group inner ih => simp [regrouped, tokens, ih]
  | _ => rfl

@[simp] theorem isJoin_regrouped (c : Condition) : c.regrouped.isJoin = c.isJoin := by
  cases c with
  | join connective left right =>
    cases connective with
    | and => exact isJoin_andLast left.regrouped right.regrouped
    | or => rfl
  | _ => rfl

theorem isOr_of_isJoin {c : Condition} (h : c.isJoin = false) : c.isOr = false := by
  cases c with
  | join => cases h
  | _ => rfl

theorem andsFirst_andLast {c term : Condition} (hc : c.AndsFirst) (hterm : term.AndsFirst)
    (hjoin : term.isJoin = false) : (c.andLast term).AndsFirst := by
  cases hor : c.isOr with
  | false =>
    rw [andLast_of_isOr term hor]
    exact ⟨hc, hterm, hor, hjoin⟩
  | true =>
    cases c with
    | join connective left right =>
      cases connective with
      | and => cases hor
      | or => exact ⟨hc.1, ⟨hc.2.1, hterm, hc.2.2, hjoin⟩, rfl⟩
    | _ => cases hor

theorem andsFirst_regrouped {c : Condition} (h : c.LeftGrouped) : c.regrouped.AndsFirst := by
  induction c with
  | join connective left right ihl ihr =>
    obtain ⟨hleft, hright, hjoin⟩ := h
    cases connective with
    | and => exact andsFirst_andLast (ihl hleft) (ihr hright) (by simpa using hjoin)
    | or => exact ⟨ihl hleft, ihr hright, isOr_of_isJoin (by simpa using hjoin)⟩
  | group inner ih => exact ih h
  | _ => trivial

theorem regrouped_of_andsFirst {c : Condition} (hc : c.LeftGrouped) (h : c.AndsFirst) :
    c.regrouped = c := by
  induction c with
  | join connective left right ihl ihr =>
    cases connective with
    | and => rw [regrouped, ihl hc.1 h.1, ihr hc.2.1 h.2.1, andLast_of_isOr right h.2.2.1]
    | or => rw [regrouped, ihl hc.1 h.1, ihr hc.2.1 h.2.1]
  | group inner ih => rw [regrouped, ih hc h]
  | _ => rfl

/-! One list of tokens has one reading with `and` before `or`: the reading from the left has the
same tokens and gives it back. -/

def graft (left : Condition) (connective : Connective) : Condition → Condition
  | .join link first last => .join link (graft left connective first) last
  | term => .join connective left term

def leftward : Condition → Condition
  | .join connective left right => left.leftward.graft connective right.leftward
  | .group inner => .group inner.leftward
  | c => c

theorem graft_of_isJoin {left right : Condition} (connective : Connective)
    (h : right.isJoin = false) : left.graft connective right = .join connective left right := by
  cases right with
  | join => cases h
  | _ => rfl

theorem tokens_graft (left : Condition) (connective : Connective) (right : Condition) :
    (left.graft connective right).tokens =
      left.tokens ++ .keyword connective.keyword :: right.tokens := by
  induction right with
  | join link first last ih _ => simp [graft, tokens, ih]
  | _ => rfl

theorem tokens_leftward (c : Condition) : c.leftward.tokens = c.tokens := by
  induction c with
  | join connective left right ihl ihr => simp [leftward, tokens_graft, tokens, ihl, ihr]
  | group inner ih => simp [leftward, tokens, ih]
  | _ => rfl

theorem leftGrouped_graft {left right : Condition} (connective : Connective)
    (hleft : left.LeftGrouped) (hright : right.LeftGrouped) :
    (left.graft connective right).LeftGrouped := by
  induction right with
  | join link first last ih _ => exact ⟨ih hright.1, hright.2⟩
  | _ => exact ⟨hleft, hright, rfl⟩

theorem leftGrouped_leftward (c : Condition) : c.leftward.LeftGrouped := by
  induction c with
  | join connective left right ihl ihr => exact leftGrouped_graft connective ihl ihr
  | group inner ih => exact ih
  | _ => trivial

theorem isJoin_leftward {c : Condition} (h : c.isJoin = false) : c.leftward.isJoin = false := by
  cases c with
  | join => cases h
  | _ => rfl

theorem regrouped_graft_or {left right : Condition} (h : right.regrouped.isOr = false) :
    (left.graft .or right).regrouped = .join .or left.regrouped right.regrouped := by
  induction right with
  | join link first last ih _ =>
    cases link with
    | and =>
      have hfirst : first.regrouped.isOr = false := by simpa [regrouped] using h
      rw [graft, regrouped, ih hfirst, regrouped, andLast_of_isOr _ hfirst]
      rfl
    | or => cases h
  | _ => rfl

theorem regrouped_leftward {c : Condition} (h : c.AndsFirst) : c.leftward.regrouped = c := by
  induction c with
  | join connective left right ihl ihr =>
    cases connective with
    | and =>
      obtain ⟨hleft, hright, hor, hjoin⟩ := h
      rw [leftward, graft_of_isJoin _ (isJoin_leftward hjoin), regrouped, ihl hleft, ihr hright,
        andLast_of_isOr right hor]
    | or =>
      obtain ⟨hleft, hright, hor⟩ := h
      rw [leftward, regrouped_graft_or (by rwa [ihr hright]), ihl hleft, ihr hright]
  | group inner ih => rw [leftward, regrouped, ih h]
  | _ => rfl

theorem eq_of_tokens_eq {c d : Condition} (hc : c.AndsFirst) (hd : d.AndsFirst)
    (h : c.tokens = d.tokens) : c = d := by
  have hread : ofTokens c.leftward.tokens = ofTokens d.leftward.tokens := by
    rw [tokens_leftward, tokens_leftward, h]
  rw [ofTokens_tokens (leftGrouped_leftward c), ofTokens_tokens (leftGrouped_leftward d)] at hread
  rw [← regrouped_leftward hc, Except.ok.inj hread, regrouped_leftward hd]

/-! The readings agree on more items the fewer `or` stand before an `and`. -/

theorem holds_andLast {c term : Condition} {item : Item} (hc : c.holds item)
    (hterm : term.holds item) : (c.andLast term).holds item := by
  unfold andLast
  split
  next left right =>
    simp only [holds, Bool.or_eq_true, Bool.and_eq_true] at hc ⊢
    exact hc.imp id fun hright => ⟨hright, hterm⟩
  next => simp [holds, hc, hterm]

theorem holds_of_andLast {c term : Condition} {item : Item} (h : (c.andLast term).holds item) :
    c.holds item := by
  unfold andLast at h
  split at h
  next left right =>
    simp only [holds, Bool.or_eq_true, Bool.and_eq_true] at h ⊢
    exact h.imp id And.left
  next =>
    simp only [holds, Bool.and_eq_true] at h
    exact h.1

/-- What holds in the reading from the left also holds with `and` before `or`. -/
theorem holds_regrouped {c : Condition} {item : Item} (h : c.holds item) :
    c.regrouped.holds item := by
  induction c with
  | join connective left right ihl ihr =>
    cases connective with
    | and =>
      simp only [holds, Bool.and_eq_true] at h
      exact holds_andLast (ihl h.1) (ihr h.2)
    | or =>
      simp only [regrouped, holds, Bool.or_eq_true] at h ⊢
      exact h.imp ihl ihr
  | group inner ih => exact ih h
  | _ => exact h

/-! Where an `or` stands before an `and`, other tests in the same places tell the readings apart. -/

def isAtom : Condition → Bool
  | .join _ _ _ | .group _ => false
  | _ => true

/-- The same connectives and parentheses around any tests. -/
inductive SameShape : Condition → Condition → Prop
  | atom {c d} : c.isAtom = true → d.isAtom = true → SameShape c d
  | join {left left' right right'} (connective : Connective) : SameShape left left' →
      SameShape right right' →
      SameShape (.join connective left right) (.join connective left' right')
  | group {inner inner'} : SameShape inner inner' → SameShape (.group inner) (.group inner')

namespace SameShape

variable {c d : Condition}

theorem isJoin_eq (h : c.SameShape d) : c.isJoin = d.isJoin := by
  cases h with
  | atom hc hd => cases c <;> cases hc <;> cases d <;> cases hd <;> rfl
  | _ => rfl

theorem leftGrouped (h : c.SameShape d) (hc : c.LeftGrouped) : d.LeftGrouped := by
  induction h with
  | @atom c d _ hd => cases d <;> cases hd <;> trivial
  | join connective _ hright ihl ihr =>
    exact ⟨ihl hc.1, ihr hc.2.1, hright.isJoin_eq ▸ hc.2.2⟩
  | group _ ih => exact ih hc

end SameShape

def uniform (value : Bool) : Condition → Condition
  | .join connective left right => .join connective (left.uniform value) (right.uniform value)
  | .group inner => .group (inner.uniform value)
  | _ => .presence (if value then .notExists else .exists) ⟨"a", []⟩

theorem sameShape_uniform (value : Bool) (c : Condition) : c.SameShape (c.uniform value) := by
  induction c with
  | join connective left right ihl ihr => exact .join connective ihl ihr
  | group inner ih => exact .group ih
  | _ => exact .atom rfl rfl

theorem lexical_uniform (value : Bool) (c : Condition) :
    ∀ token ∈ (c.uniform value).tokens, token.Lexical := by
  have hname : Token.IsName "a" := ⟨⟨'a', [], rfl, by decide, by simp⟩, by decide, by decide⟩
  induction c with
  | join connective left right ihl ihr =>
    exact List.forall_mem_append.mpr ⟨ihl, List.forall_mem_cons.mpr ⟨trivial, ihr⟩⟩
  | group inner ih =>
    simp only [uniform, tokens, List.cons_append, List.forall_mem_cons, List.forall_mem_append]
    exact ⟨trivial, ih, trivial, by simp⟩
  | _ =>
    simp only [uniform, tokens, Path.tokens, List.flatMap_nil, List.cons_append, List.nil_append,
      List.forall_mem_cons]
    exact ⟨FunctionName.lexical_token _, trivial, hname, trivial, by simp⟩

theorem holds_uniform (value : Bool) (c : Condition) :
    (c.uniform value).holds .empty = value ∧ (c.uniform value).regrouped.holds .empty = value := by
  induction c with
  | join connective left right ihl ihr =>
    have hholds : ((join connective left right).uniform value).holds .empty = value := by
      cases connective <;> simp [uniform, holds, ihl.1, ihr.1]
    refine ⟨hholds, ?_⟩
    cases value with
    | true => exact holds_regrouped hholds
    | false =>
      cases connective with
      | and =>
        refine Bool.eq_false_iff.mpr fun h => ?_
        have := holds_of_andLast h
        simp [ihl.2] at this
      | or => simp [uniform, regrouped, holds, ihl.2, ihr.2]
  | group inner ih => exact ih
  | _ => cases value <;> exact ⟨rfl, rfl⟩

structure Differs (c : Condition) : Prop where
  lexical : ∀ token ∈ c.tokens, token.Lexical
  fails : c.holds .empty = false
  passes : c.regrouped.holds .empty = true

theorem lexical_join {left right : Condition} (connective : Connective)
    (hleft : ∀ token ∈ left.tokens, token.Lexical)
    (hright : ∀ token ∈ right.tokens, token.Lexical) :
    ∀ token ∈ (join connective left right).tokens, token.Lexical :=
  List.forall_mem_append.mpr ⟨hleft, List.forall_mem_cons.mpr ⟨trivial, hright⟩⟩

theorem Differs.join_left {left : Condition} (h : left.Differs) (connective : Connective)
    (right : Condition) : ∃ value, (join connective left (right.uniform value)).Differs := by
  cases connective with
  | and =>
    exact ⟨true, lexical_join .and h.lexical (right.lexical_uniform true), by simp [holds, h.fails],
      holds_andLast h.passes (right.holds_uniform true).2⟩
  | or =>
    exact ⟨false, lexical_join .or h.lexical (right.lexical_uniform false),
      by simp [holds, h.fails, (right.holds_uniform false).1], by simp [regrouped, holds, h.passes]⟩

theorem Differs.join_right {right : Condition} (h : right.Differs) (connective : Connective)
    (left : Condition) : ∃ value, (join connective (left.uniform value) right).Differs := by
  cases connective with
  | and =>
    exact ⟨true, lexical_join .and (left.lexical_uniform true) h.lexical, by simp [holds, h.fails],
      holds_andLast (left.holds_uniform true).2 h.passes⟩
  | or =>
    exact ⟨false, lexical_join .or (left.lexical_uniform false) h.lexical,
      by simp [holds, h.fails, (left.holds_uniform false).1], by simp [regrouped, holds, h.passes]⟩

theorem differs_of_isOr {left : Condition} (h : left.isOr = true) (right : Condition) :
    (join .and (left.uniform true) (right.uniform false)).Differs := by
  refine ⟨lexical_join .and (left.lexical_uniform true) (right.lexical_uniform false), ?_, ?_⟩
  · simp [holds, (right.holds_uniform false).1]
  · cases left with
    | join connective first last =>
      cases connective with
      | and => cases h
      | or => simp [uniform, regrouped, andLast, holds, (first.holds_uniform true).2]
    | _ => cases h

theorem exists_differs {c : Condition} (hc : c.LeftGrouped) (h : ¬ c.AndsFirst) :
    ∃ d, c.SameShape d ∧ d.Differs := by
  -- The tests beside a part that differs are chosen so that they do not decide the whole.
  induction c with
  | join connective left right ihl ihr =>
    by_cases hleft : left.AndsFirst
    · by_cases hright : right.AndsFirst
      · cases connective with
        | and =>
          cases hor : left.isOr with
          | false => exact absurd ⟨hleft, hright, hor, hc.2.2⟩ h
          | true =>
            exact ⟨_, .join .and (sameShape_uniform true left) (sameShape_uniform false right),
              differs_of_isOr hor right⟩
        | or => exact absurd ⟨hleft, hright, isOr_of_isJoin hc.2.2⟩ h
      · obtain ⟨d, hshape, hd⟩ := ihr hc.2.1 hright
        obtain ⟨value, hjoin⟩ := hd.join_right connective left
        exact ⟨_, .join connective (sameShape_uniform value left) hshape, hjoin⟩
    · obtain ⟨d, hshape, hd⟩ := ihl hc.1 hleft
      obtain ⟨value, hjoin⟩ := hd.join_left connective right
      exact ⟨_, .join connective hshape (sameShape_uniform value right), hjoin⟩
  | group inner ih =>
    obtain ⟨d, hshape, hd⟩ := ih hc h
    refine ⟨.group d, .group hshape, ?_, hd.fails, hd.passes⟩
    simp only [tokens, List.cons_append, List.forall_mem_cons, List.forall_mem_append]
    exact ⟨trivial, hd.lexical, trivial, by simp⟩
  | _ => exact absurd trivial h

end Condition

/-- With its placeholders replaced and `and` read before `or`, the sent expression is this
condition. -/
def Compiled.Means (compiled : Compiled) (c : Condition) : Prop :=
  c.AndsFirst ∧ ∃ text, compiled.placeholders.substitute compiled.expression.toList = some text ∧
    Token.scan text = .ok c.tokens

namespace Condition

theorem means_compile_iff {source c : Condition} (h : source.WellFormed)
    (previous : Option Compiled) : (source.compile previous).Means c ↔ c = source.regrouped := by
  obtain ⟨text, htext, hscan⟩ := (h.carries_compile previous).substitute h
  rw [← h.expression_compile] at htext
  constructor
  · rintro ⟨hc, text', htext', hscan'⟩
    obtain rfl : text = text' := Option.some.inj (htext.symm.trans htext')
    refine eq_of_tokens_eq hc (andsFirst_regrouped h.leftGrouped) ?_
    rw [tokens_regrouped]
    exact Except.ok.inj (hscan'.symm.trans hscan)
  · intro hc
    subst hc
    exact ⟨andsFirst_regrouped h.leftGrouped, text, htext, by rwa [tokens_regrouped]⟩

theorem WellFormed.exists_text {c : Condition} (h : c.WellFormed) : ∃ text, parse text = .ok c := by
  obtain ⟨text, -, hscan⟩ := (h.carries_compile none).substitute h
  exact ⟨String.ofList text, parse_of_scan h.leftGrouped (by rwa [String.toList_ofList])⟩

end Condition

/-- What is sent has one meaning. It is that of the text, unless an `and` of the text follows an
`or` in one chain: then it holds for all items of the text and, with some tests in these places,
for others too. -/
theorem sent_meaning {text : String} {previous : Option Compiled} {compiled : Compiled}
    (h : compileKey text previous = .ok compiled ∨
      compileFilter (some text) previous = .ok (some compiled)) :
    ∃ source wire, Condition.parse text = .ok source ∧ (∀ c, compiled.Means c ↔ c = wire) ∧
      (∀ item, source.holds item → wire.holds item) ∧
      (source.AndsFirst → ∀ item, wire.holds item = source.holds item) ∧
      (¬ source.AndsFirst → ∃ text' source' compiled' wire' item,
        source.SameShape source' ∧ Condition.parse text' = .ok source' ∧
        compileKey text' previous = .ok compiled' ∧
        compileFilter (some text') previous = .ok (some compiled') ∧ compiled'.Means wire' ∧
        source'.holds item = false ∧ wire'.holds item = true) := by
  obtain ⟨source, hparse, rfl⟩ : ∃ source, Condition.parse text = .ok source ∧
      source.compile previous = compiled := by
    cases h with
    | inl h => exact compileKey_eq_ok_iff.mp h
    | inr h => exact compileFilter_eq_ok_iff.mp h
  have hwell := Condition.wellFormed_of_parse hparse
  refine ⟨source, source.regrouped, hparse, fun c => Condition.means_compile_iff hwell previous,
    fun item => Condition.holds_regrouped, fun hands item => ?_, fun hands => ?_⟩
  · rw [Condition.regrouped_of_andsFirst hwell.leftGrouped hands]
  · obtain ⟨d, hshape, hd⟩ := Condition.exists_differs hwell.leftGrouped hands
    have hd' : d.WellFormed := ⟨hshape.leftGrouped hwell.leftGrouped, hd.lexical⟩
    obtain ⟨text', htext'⟩ := hd'.exists_text
    exact ⟨text', d, d.compile previous, d.regrouped, .empty, hshape, htext',
      compileKey_eq_ok_iff.mpr ⟨d, htext', rfl⟩, compileFilter_eq_ok_iff.mpr ⟨d, htext', rfl⟩,
      (Condition.means_compile_iff hd' previous).mpr rfl, hd.fails, hd.passes⟩

theorem parse_or_and : Condition.parse "a = true or b = true and c = true" =
    .ok (.join .and
      (.join .or (.compare ⟨"a", []⟩ .equal (.boolean true))
        (.compare ⟨"b", []⟩ .equal (.boolean true)))
      (.compare ⟨"c", []⟩ .equal (.boolean true))) := by
  with_unfolding_all rfl

/-- The text asks for `c`, but what is sent does not. -/
theorem sent_without_last_term :
    ∃ compiled source wire item,
      compileFilter (some "a = true or b = true and c = true") none = .ok (some compiled) ∧
      Condition.parse "a = true or b = true and c = true" = .ok source ∧ compiled.Means wire ∧
      item = SortedMap.empty.insert "a" (.boolean true) ∧ source.holds item = false ∧
      wire.holds item = true :=
  ⟨_, _, _, _, compileFilter_eq_ok_iff.mpr ⟨_, parse_or_and, rfl⟩, parse_or_and,
    (Condition.means_compile_iff (Condition.wellFormed_of_parse parse_or_and) none).mpr rfl, rfl,
    by decide, by decide⟩

theorem sent_meaning_or_and : ∃ compiled : Compiled,
    compileFilter (some "a = true or b = true and c = true") none = .ok (some compiled) ∧
    ∃ source wire : Condition, Condition.parse "a = true or b = true and c = true" = .ok source ∧
      (∀ c, compiled.Means c ↔ c = wire) ∧ ∀ item, source.holds item → wire.holds item := by
  have h : compileFilter (some "a = true or b = true and c = true") none = _ :=
    compileFilter_eq_ok_iff.mpr ⟨_, parse_or_and, rfl⟩
  obtain ⟨source, wire, hparse, hmeans, hholds, -⟩ := sent_meaning (.inr h)
  exact ⟨_, h, source, wire, hparse, hmeans, hholds⟩

end KeyedTable
