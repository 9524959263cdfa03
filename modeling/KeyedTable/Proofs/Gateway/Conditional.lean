import KeyedTable.Proofs.Condition.Compiling
import KeyedTable.Proofs.Gateway.Checked
import KeyedTable.Proofs.Gateway.InTurn
import KeyedTable.Proofs.Reading.Call

namespace KeyedTable

namespace Memory

def existing (m : Memory) (item : Item) : Item := (m.lookup item).getD .empty

def Admits (m : Memory) (item : Item) (condition : Option String) : Prop :=
  ∀ text ∈ condition, isBlankText text ∨
    ∃ c, Condition.parse text = .ok c ∧ c.holds (m.existing item)

def countPut (m : Memory) : Memory :=
  { m with tally := { m.tally with puts := m.tally.puts + 1 } }

def unmet : Error := .conditionalCheckFailed "The conditional request failed"

/-- What a put comes to. -/
structure JudgesPut (m : Memory) (item : Item) (condition : Option String)
    (ran : Ran Memory Unit) : Prop where
  done_iff : ran.outcome = .done () ↔ m.Admits item condition
  stored : m.Admits item condition → ran.store = m.countPut.store item ∧
    ∃ put, ran.events = [.asked (.put put) none, .logged (.added m.table.name)]
  refused : ∀ text ∈ condition, ∀ c, Condition.parse text = .ok c →
    c.holds (m.existing item) = false → ran.outcome = .failed unmet ∧ ran.store = m.countPut ∧
      ∃ put, ran.events = [.asked (.put put) (some unmet)]
  malformed : ∀ text ∈ condition, isBlankText text = false → ∀ flaw,
    Condition.parse text = .error flaw → ran = ⟨.failed (.expression flaw), m, []⟩

variable {m : Memory} {item : Item} {condition : Option String} {test : Option Condition}

theorem admits_iff_of_filters (h : Filters condition test) :
    m.Admits item condition ↔ kept test (m.existing item) := by
  cases h with
  | absent => simp [Admits, kept]
  | blank hblank => simp [Admits, kept, hblank]
  | reads hparse => simp [Admits, kept, hparse, Condition.isBlankText_of_parse hparse]

theorem put_of_resolveFilter {put : Put}
    (h : put.placeholders.resolveFilter put.condition = .ok test) :
    m.put put = if kept test (m.existing put.item) then (.ok (), m.store put.item)
      else (.error unmet, m) := by
  rw [Memory.put, h]
  cases test <;> rfl

end Memory

theorem exists_filters_or_malformed (condition : Option String) :
    (∃ test, Filters condition test) ∨ ∃ text ∈ condition, isBlankText text = false ∧
      ∃ flaw, Condition.parse text = .error flaw := by
  cases condition with
  | none => exact .inl ⟨none, .absent⟩
  | some text =>
    cases hblank : isBlankText text with
    | true => exact .inl ⟨none, .blank hblank⟩
    | false =>
      cases hparse : Condition.parse text with
      | ok c => exact .inl ⟨some c, .reads hparse⟩
      | error flaw => exact .inr ⟨text, rfl, hblank, flaw, hparse⟩

theorem resolveFilter_placeholdersOf {test : Option Condition} (h : ∀ c ∈ test, c.WellFormed) :
    (placeholdersOf (test.map (·.compile none))).resolveFilter
      ((test.map (·.compile none)).map Compiled.expression) = .ok test := by
  cases test with
  | none => rfl
  | some c => exact Condition.resolveFilter_compile (h c rfl) none

namespace Gateway

variable {m : Memory} {item : Item} {condition : Option String} {test : Option Condition}

theorem exists_putRequest {σ : Type} (g : Gateway σ) (item : Item) (h : Filters condition test) :
    ∃ put, g.putRequest item condition = .ok put ∧ put.table = g.table.name ∧ put.item = item ∧
      put.placeholders.resolveFilter put.condition = .ok test := by
  obtain ⟨plain, hplain, hexpression⟩ := h.exists_plain
  refine ⟨⟨g.table.name, item, _, _⟩, ?_, rfl, rfl,
    resolveFilter_placeholdersOf hplain.wellFormed⟩
  rw [putRequest, hexpression, filterExpression_of_reads hplain]
  rfl

theorem submit_eq_of_calm {table : Table} {request : Request}
    {result : Except Error request.Reply} {after : Memory} (retry : RetryPolicy) (hcalm : m.Calm)
    (hcheck : m.check request = .ok ())
    (hserve : (m.count request).serve request = (result, after)) :
    (inMemory table retry).submit request m =
      ⟨.ofExcept result, after, [.asked request (refusal? result)]⟩ := by
  have hleft : m.throttling ≤ retry.maxRetries := hcalm.throttling ▸ Nat.zero_le _
  have hran := retry.attempts_throttled hcheck hcalm.failing hleft 0
  rw [Memory.released_of_none hcalm.throttling, hserve, hcalm.throttling] at hran
  exact hran

theorem exists_submit_put (retry : RetryPolicy) (hcalm : m.Calm) (item : Item)
    (h : Filters condition test) :
    ∃ put, (inMemory m.table retry).putRequest item condition = .ok put ∧
      ∀ {result after},
        (if Memory.kept test (m.existing item) then (.ok (), m.countPut.store item)
          else (.error Memory.unmet, m.countPut)) = (result, after) →
        (inMemory m.table retry).submit (.put put) m =
          ⟨.ofExcept result, after, [.asked (.put put) (refusal? result)]⟩ := by
  obtain ⟨put, hrequest, htable, rfl, hresolve⟩ :=
    (inMemory m.table retry).exists_putRequest item h
  have hcheck : m.check (.put put) = .ok () := by
    simp [Memory.check, Request.table, htable, inMemory, Memory.checkShape]
  exact ⟨put, hrequest, fun hresult => submit_eq_of_calm retry hcalm hcheck
    ((Memory.put_of_resolveFilter hresolve).trans hresult)⟩

theorem put_of_kept (retry : RetryPolicy) (hcalm : m.Calm) (h : Filters condition test)
    (hkept : Memory.kept test (m.existing item)) :
    ∃ put, (inMemory m.table retry).put item condition m =
      ⟨.done (), m.countPut.store item,
        [.asked (.put put) none, .logged (.added m.table.name)]⟩ := by
  obtain ⟨put, hrequest, hsubmit⟩ := exists_submit_put retry hcalm item h
  refine ⟨put, ?_⟩
  rw [Gateway.put, hrequest, Action.ofExcept_bind]
  exact Action.bind_of_eq (hsubmit (if_pos hkept)) rfl

theorem put_of_not_kept (retry : RetryPolicy) (hcalm : m.Calm) (h : Filters condition test)
    (hkept : Memory.kept test (m.existing item) = false) :
    ∃ put, (inMemory m.table retry).put item condition m =
      ⟨.failed Memory.unmet, m.countPut, [.asked (.put put) (some Memory.unmet)]⟩ := by
  obtain ⟨put, hrequest, hsubmit⟩ := exists_submit_put retry hcalm item h
  have hran := hsubmit (if_neg (by simp [hkept]))
  refine ⟨put, ?_⟩
  rw [Gateway.put, hrequest, Action.ofExcept_bind, Action.bind_of_failed (by rw [hran]; rfl), hran]
  rfl

theorem put_of_malformed (retry : RetryPolicy) {text : String} {flaw : ExpressionFault}
    (hblank : isBlankText text = false) (hparse : Condition.parse text = .error flaw) :
    (inMemory m.table retry).put item (some text) m = ⟨.failed (.expression flaw), m, []⟩ := by
  have hfault : (Operation.put item (some text)).fault = some (.expression flaw) := by
    simp [Operation.fault, Operation.checks, filterFault, syntaxFault, hblank, hparse]
  exact ((inMemory m.table retry).checked_put item _).invalid _ hfault m

theorem judgesPut (retry : RetryPolicy) (hcalm : m.Calm) (item : Item)
    (condition : Option String) :
    m.JudgesPut item condition ((inMemory m.table retry).put item condition m) where
  done_iff := by
    obtain ⟨test, htest⟩ | ⟨text, rfl, hblank, flaw, hparse⟩ :=
      exists_filters_or_malformed condition
    · rw [Memory.admits_iff_of_filters htest]
      cases hkept : Memory.kept test (m.existing item) with
      | true =>
        obtain ⟨put, hran⟩ := put_of_kept retry hcalm htest hkept
        simp [hran]
      | false =>
        obtain ⟨put, hran⟩ := put_of_not_kept retry hcalm htest hkept
        simp [hran]
    · simp [put_of_malformed retry hblank hparse, Memory.Admits, hblank, hparse]
  stored hadmits := by
    obtain ⟨test, htest⟩ | ⟨text, rfl, hblank, flaw, hparse⟩ :=
      exists_filters_or_malformed condition
    · have hkept := (Memory.admits_iff_of_filters htest).mp hadmits
      obtain ⟨put, hran⟩ := put_of_kept retry hcalm htest hkept
      rw [hran]
      exact ⟨rfl, put, rfl⟩
    · simp [Memory.Admits, hblank, hparse] at hadmits
  refused := by
    rintro text rfl c hparse hholds
    obtain ⟨put, hran⟩ := put_of_not_kept retry hcalm (.reads hparse) hholds
    rw [hran]
    exact ⟨rfl, rfl, put, rfl⟩
  malformed := by
    rintro text rfl hblank flaw hparse
    exact put_of_malformed retry hblank hparse

end Gateway

theorem Condition.parse_presence (test : Presence) {name : String} (h : Token.IsName name) :
    Condition.parse ((FunctionName.presence test).spelling ++ "(" ++ name ++ ")") =
      .ok (.presence test ⟨name, []⟩) := by
  have htext : ((FunctionName.presence test).spelling ++ "(" ++ name ++ ")").toList =
      (FunctionName.presence test).spelling.toList ++ '(' :: (name.toList ++ [')']) := by
    simp [String.toList_append]
  have hfunction (cs : List Char) :
      Token.scan ((FunctionName.presence test).spelling.toList ++ '(' :: cs) =
        (Token.scan cs).map fun ts => (FunctionName.presence test).token :: .lparen :: ts := by
    have hlparen : Token.scan ('(' :: cs) = (Token.scan cs).map (.lparen :: ·) :=
      @Token.scan_spelling .lparen cs trivial trivial
    rw [Token.scan_name (FunctionName.lexical_token _) (by simp [Token.Ends]; decide), hlparen]
    cases Token.scan cs <;> rfl
  have hname : Token.scan (name.toList ++ [')']) = .ok [.identifier name, .rparen] := by
    have hrparen : Token.scan [')'] = (Token.scan []).map (.rparen :: ·) :=
      @Token.scan_spelling .rparen [] trivial trivial
    have hnil : Token.scan [] = .ok [] := by rw [Token.scan]
    rw [Token.scan_name h (by simp [Token.Ends]; decide), hrparen, hnil]
    rfl
  refine Condition.parse_of_scan trivial ?_
  rw [htext, hfunction, hname]
  rfl

def unlessThere (name : String) : String := "attribute_not_exists" ++ "(" ++ name ++ ")"

namespace Memory

def Occupied (m : Memory) (key : OrderKey) (name : String) : Prop :=
  ∃ stored, m.items.get? key = some stored ∧ stored.contains name

variable {m : Memory} {item : Item} {name : String}

theorem occupied_iff : m.Occupied (m.table.primaryOrder item) name ↔
    kept (some (.presence .notExists ⟨name, []⟩)) (m.existing item) = false := by
  have hlookup (stored : Item) : Path.lookup ⟨name, []⟩ stored = stored.get? name := by
    cases h : stored.get? name <;> simp [Path.lookup, h, AttributeValue.follow]
  simp only [Occupied, existing, lookup, kept, Option.all_some, Condition.holds, Presence.holds,
    hlookup, SortedMap.contains]
  cases m.items.get? (m.table.primaryOrder item) <;> simp

end Memory

namespace Gateway

variable {m : Memory} {item : Item} {name : String}

theorem filters_unlessThere (h : Token.IsName name) :
    Filters (some (unlessThere name)) (some (.presence .notExists ⟨name, []⟩)) :=
  .reads (Condition.parse_presence .notExists h)

theorem put_of_occupied (retry : RetryPolicy) (hcalm : m.Calm) (hname : Token.IsName name)
    (h : m.Occupied (m.table.primaryOrder item) name) :
    ∃ put, (inMemory m.table retry).put item (some (unlessThere name)) m =
      ⟨.failed Memory.unmet, m.countPut, [.asked (.put put) (some Memory.unmet)]⟩ :=
  put_of_not_kept retry hcalm (filters_unlessThere hname) (Memory.occupied_iff.mp h)

theorem occupied_put (retry : RetryPolicy) (hcalm : m.Calm) (hname : Token.IsName name)
    (hitem : item.contains name) :
    let after := ((inMemory m.table retry).put item (some (unlessThere name)) m).store
    after.table = m.table ∧ after.Calm ∧ after.Occupied (m.table.primaryOrder item) name := by
  by_cases h : m.Occupied (m.table.primaryOrder item) name
  · obtain ⟨put, hran⟩ := put_of_occupied retry hcalm hname h
    rw [hran]
    exact ⟨rfl, ⟨hcalm.failing, hcalm.throttling⟩, h⟩
  · have hkept := Bool.of_not_eq_false fun hkept => h (Memory.occupied_iff.mpr hkept)
    obtain ⟨put, hran⟩ := put_of_kept retry hcalm (filters_unlessThere hname) hkept
    rw [hran]
    exact ⟨rfl, ⟨hcalm.failing, hcalm.throttling⟩, item, SortedMap.get?_insert_self .., hitem⟩

theorem inTurn_of_occupied (retry : RetryPolicy) {table : Table} (htable : m.table = table)
    (hcalm : m.Calm) (hname : Token.IsName name) {key : OrderKey} (h : m.Occupied key name)
    {items : List Item} (hitems : ∀ item ∈ items, table.primaryOrder item = key) :
    ∀ ran ∈ Action.inTurn (items.map fun item =>
        (inMemory table retry).put item (some (unlessThere name))) m,
      ran.outcome = .failed Memory.unmet ∧ ran.store.items = m.items := by
  induction items generalizing m with
  | nil => nofun
  | cons item items ih =>
    subst htable
    obtain ⟨hitem, hitems⟩ := List.forall_mem_cons.mp hitems
    obtain ⟨put, hran⟩ := @put_of_occupied m item name retry hcalm hname (hitem ▸ h)
    rw [List.map_cons, Action.inTurn, hran, List.forall_mem_cons]
    exact ⟨⟨rfl, rfl⟩, ih rfl ⟨hcalm.failing, hcalm.throttling⟩ h hitems⟩

end Gateway

/-- What the text of its condition says of the item that is there decides about a put, at once and
for good. If the condition asks that there be no partition key yet, only the first of several puts
under one primary key may succeed, and what is there then stays. -/
theorem conditional_puts {m : Memory} (hcalm : m.Calm) (retry : RetryPolicy) :
    let g := Gateway.inMemory m.table retry
    (∀ item condition, m.JudgesPut item condition (g.put item condition m)) ∧
      (Token.IsName m.table.primaryKey.partitionKey →
        let condition := unlessThere m.table.primaryKey.partitionKey
        ∀ (key : OrderKey) (items : List Item),
          (∀ item ∈ items, m.table.primaryOrder item = key ∧
            item.contains m.table.primaryKey.partitionKey) →
          ∀ first rest,
            Action.inTurn (items.map fun item => g.put item (some condition)) m = first :: rest →
            ∀ ran ∈ rest,
              ran.outcome = .failed Memory.unmet ∧ ran.store.items = first.store.items) := by
  refine ⟨fun item condition => Gateway.judgesPut retry hcalm item condition, ?_⟩
  intro hname condition key items hitems first rest hruns
  cases items with
  | nil => cases hruns
  | cons item items =>
    obtain ⟨⟨rfl, hitem⟩, hitems⟩ := List.forall_mem_cons.mp hitems
    obtain ⟨rfl, rfl⟩ := List.cons.inj hruns
    obtain ⟨htable, hcalm, hoccupied⟩ := Gateway.occupied_put retry hcalm hname hitem
    exact Gateway.inTurn_of_occupied retry htable hcalm hname hoccupied fun item hitem =>
      (hitems item hitem).1

theorem conditional_puts_twice :
    let table : Table := ⟨"orders", ⟨"user", none⟩, .empty⟩
    let item (paid : Bool) : Item :=
      (SortedMap.empty.insert "paid" (.boolean paid)).insert "user" (.string "u")
    let put (paid : Bool) :=
      (Gateway.inMemory table .standard).put (item paid) (some (unlessThere "user"))
    let m := Memory.new table none []
    ∃ first second, Action.inTurn [put true, put false] m = [first, second] ∧
      first.outcome = .done () ∧ first.store.items = m.items.insert ⟨["u"]⟩ (item true) ∧
      second.outcome = .failed Memory.unmet ∧ second.store.items = first.store.items := by
  intro table item put m
  have hname : Token.IsName "user" :=
    ⟨⟨_, _, rfl, by decide, List.all_eq_true.mp (by decide)⟩, by decide, by decide⟩
  have hkey (paid : Bool) : table.primaryOrder (item paid) = ⟨["u"]⟩ := by cases paid <;> decide
  have hitem (paid : Bool) : (item paid).contains "user" := by cases paid <;> decide
  obtain ⟨hjudged, honce⟩ := conditional_puts (m := m) ⟨rfl, rfl⟩ .standard
  have hadmits : m.Admits (item true) (some (unlessThere "user")) :=
    (Memory.admits_iff_of_filters (Gateway.filters_unlessThere hname)).mpr (by decide)
  have hitems : ∀ stored ∈ [item true, item false],
      table.primaryOrder stored = ⟨["u"]⟩ ∧ stored.contains "user" := by
    simp [hkey, hitem]
  obtain ⟨hsecond, -⟩ := List.forall_mem_cons.mp (honce hname ⟨["u"]⟩ _ hitems _ _ rfl)
  have hfirst := hjudged (item true) (some (unlessThere "user"))
  have hstored := congrArg Memory.items (hfirst.stored hadmits).1
  exact ⟨_, _, rfl, hfirst.done_iff.mpr hadmits, hstored, hsecond⟩

end KeyedTable
