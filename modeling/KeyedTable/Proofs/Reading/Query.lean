import KeyedTable.Proofs.Condition.Compiling
import KeyedTable.Proofs.Reading.Portion

namespace KeyedTable

abbrev ReadsFilter : Option String → Option Condition → Prop :=
  Option.Rel fun text c => Condition.parse text = .ok c

theorem filterExpression_of_reads {filter : Option String} {test : Option Condition}
    (h : ReadsFilter filter test) (previous : Option Compiled) :
    filterExpression filter previous = .ok (test.map (·.compile previous)) := by
  cases h with
  | none => rfl
  | some h =>
    rw [filterExpression, compileFilter_eq_ok_iff.mpr ⟨_, h, rfl⟩]
    rfl

theorem ReadsFilter.wellFormed {filter : Option String} {test : Option Condition}
    (h : ReadsFilter filter test) : ∀ c ∈ test, c.WellFormed := by
  cases h with
  | none => simp
  | some h =>
    intro c hc
    cases hc
    exact Condition.wellFormed_of_parse h

theorem Condition.resolveFilter_compile {c : Condition} (h : c.WellFormed)
    (previous : Option Compiled) :
    (c.compile previous).placeholders.resolveFilter (some (c.compile previous).expression) =
      .ok (some c) := by
  have hresolve := (h.carries_compile previous).resolve h
  rw [← h.expression_compile] at hresolve
  simp only [Placeholders.resolveFilter]
  exact congrArg (Except.map some) hresolve

namespace Gateway

def sentQuery (table : Table) (condition : Condition) (test : Option Condition)
    (options : QueryOptions) : Read :=
  let key := condition.compile none
  let filter := test.map (·.compile (some key))
  { table := table.name
    index := options.index
    scope := .query key.expression options.forward
    filter := filter.map Compiled.expression
    placeholders := (filter.getD key).placeholders
    start := options.start
    limit := options.limit }

theorem queryRead_eq {σ : Type} {g : Gateway σ} {key : String} {options : QueryOptions}
    {condition : Condition} {test : Option Condition} (hkey : Condition.parse key = .ok condition)
    (hfilter : ReadsFilter options.filter test) (hlimit : options.limit ≠ some 0) :
    g.queryRead key options = .ok (sentQuery g.table condition test options) := by
  have hcompile : compileKey key none = .ok (condition.compile none) :=
    compileKey_eq_ok_iff.mpr ⟨condition, hkey, rfl⟩
  have hexpression := filterExpression_of_reads hfilter (some (condition.compile none))
  have hmapped : (compileKey key none).mapError Error.expression =
      .ok (condition.compile none) := by
    rw [hcompile]
    rfl
  simp only [queryRead, checkLimit, if_neg hlimit, hmapped, bind, Except.bind, hexpression]
  rfl

def queried (condition : Condition) (forward : Bool) (items : List Item) : List Item :=
  if forward then items.filter condition.holds else (items.filter condition.holds).reverse

theorem mem_queried {condition : Condition} {forward : Bool} {items : List Item} {item : Item} :
    item ∈ queried condition forward items ↔ item ∈ items ∧ condition.holds item := by
  cases forward <;> simp [queried]

theorem length_queried_le (condition : Condition) (forward : Bool) (items : List Item) :
    (queried condition forward items).length ≤ items.length := by
  cases forward <;> simp [queried, List.length_filter_le]

theorem ordered_queried {table : Table} {index : Option String} {items : List Item}
    (h : items.Pairwise (table.Before index true)) (condition : Condition) (forward : Bool) :
    (queried condition forward items).Pairwise (table.Before index forward) := by
  cases forward with
  | true => exact h.filter _
  | false => exact List.pairwise_reverse.mpr (h.filter _)

variable {m : Memory} {items : List Item} {condition : Condition} {test : Option Condition}
  {options : QueryOptions}

theorem resolve_sentQuery (h : condition.WellFormed) (htest : ∀ c ∈ test, c.WellFormed)
    (table : Table) (options : QueryOptions) :
    (sentQuery table condition test options).placeholders.resolve
      (condition.compile none).expression = .ok condition := by
  have hcarries : ((test.map (·.compile (some (condition.compile none)))).getD
      (condition.compile none)).Carries (Condition.firstNumber none) condition := by
    cases test with
    | none => exact h.carries_compile none
    | some c => exact (h.carries_compile none).compile (htest c rfl)
  have hresolve := hcarries.resolve h
  rwa [← h.expression_compile] at hresolve

theorem serves_query (hsees : m.Sees options.index items) (hcondition : condition.WellFormed)
    (htest : ∀ c ∈ test, c.WellFormed) :
    m.Serves (sentQuery m.table condition test options)
      (queried condition options.forward items) test where
  table := rfl
  scope := rfl
  filter := by
    cases test with
    | none => rfl
    | some c => exact Condition.resolveFilter_compile (htest c rfl) _
  candidates := by
    have hresolve := resolve_sentQuery hcondition htest m.table options
    simp only [sentQuery, Memory.candidates, hsees.visible]
    exact (congrArg (· >>= _) hresolve).trans rfl
  ordered := ordered_queried hsees.ordered condition options.forward

theorem query_eq (retry : RetryPolicy) {key : String} (hkey : Condition.parse key = .ok condition)
    (hfilter : ReadsFilter options.filter test) (hlimit : options.limit ≠ some 0) (s : Memory) :
    (inMemory m.table retry).query key options s =
      (inMemory m.table retry).pages (s.items.size + 1)
        (options.start.map fun start => some (m.table.cursor options.index start))
        (sentQuery m.table condition test options) s := by
  rw [query, queryRead_eq hkey hfilter hlimit, Action.ofExcept_bind]
  rfl

theorem exists_queryAll (hcalm : m.Calm) (hpage : m.pageSize ≠ some 0) (retry : RetryPolicy)
    (options : QueryOptions) {key : String} (hkey : Condition.parse key = .ok condition)
    (hfilter : ReadsFilter options.filter test) (hlimit : options.limit ≠ some 0)
    (hsees : m.Sees options.index items) {rest : List Item}
    (hahead : m.Ahead options.index options.forward (queried condition options.forward items)
      options.start rest) (tally : Tally) :
    ∃ n after events, deliveries events ≠ [] ∧ lastCursor (deliveries events) = none ∧
      (deliveries events).flatMap Delivery.items = rest.filter (Memory.kept test) ∧
      ∀ calls, n ≤ calls → (inMemory m.table retry).queryAll calls key options { m with tally } =
        ⟨.done n, { m with tally := after }, events⟩ := by
  -- A call that leaves something over has read some of it.
  induction hn : rest.length using Nat.strongRecOn generalizing options rest tally with
  | ind n ih =>
    have hshort : rest.length < m.items.size + 1 :=
      Nat.lt_succ_of_le <| calc
        rest.length ≤ (queried condition options.forward items).length := hahead.length_le
        _ ≤ items.length := length_queried_le condition options.forward items
        _ ≤ m.items.size := hsees.length_le
    have hserves : m.Serves (sentQuery m.table condition test options) _ test :=
      serves_query hsees (Condition.wellFormed_of_parse hkey) hfilter.wellFormed
    obtain ⟨after, events, left, hpages, hportion⟩ :=
      exists_portion retry hcalm hpage (options.start.map fun start =>
        some (m.table.cursor options.index start)) hserves hahead hlimit hshort tally
    have hcall := (query_eq retry hkey hfilter hlimit { m with tally }).trans hpages
    cases hcursor : lastCursor (deliveries events) with
    | none =>
      refine ⟨1, after, events, hportion.nonempty, hcursor, ?_, ?_⟩
      · simpa [hportion.finished hcursor] using hportion.delivered
      · exact resume_last hcall (by rw [hcursor]; rfl)
    | some key =>
      obtain ⟨hleft, hshorter⟩ := hportion.goesOn key hcursor
      obtain ⟨rounds, last, others, hnonempty, hlast, hothers, hresume⟩ :=
        ih left.length (hn ▸ hshorter) { options with start := some key } hfilter hlimit hsees hleft
          after rfl
      refine ⟨rounds + 1, last, events ++ others, ?_, ?_, ?_, ?_⟩
      · simp [hnonempty]
      · rw [deliveries_append, lastCursor_append hnonempty, hlast]
      · rw [deliveries_append, List.flatMap_append, hothers, hportion.delivered]
      · exact resume_more hcall (by rw [hcursor]; rfl) hresume

end Gateway

/-- Whoever resumes a query from its own cursors gets every item that the index covers and that
satisfies the key condition and the filter, each of them once and in the order of the read. Neither
the limit nor the size of the store's pages makes a difference. -/
theorem resumed_query {m : Memory} (hkeyed : m.Keyed) (hcalm : m.Calm) {index : Option String}
    (hindex : m.table.Registered index) {key : String} {condition : Condition}
    (hkey : Condition.parse key = .ok condition) {filter : Option String}
    {test : Option Condition} (hfilter : ReadsFilter filter test) (forward : Bool) :
    ∃ items : List Item, items.Pairwise (m.table.Before index forward) ∧
      (∀ item, item ∈ items ↔ item ∈ m.items.values ∧ m.table.covers index item ∧
        condition.holds item ∧ test.all (·.holds item)) ∧
      ∀ (retry : RetryPolicy) (limit pageSize : Option Nat), limit ≠ some 0 → pageSize ≠ some 0 →
        ∃ n, ∀ calls, n ≤ calls →
          let ran := (Gateway.inMemory m.table retry).queryAll calls key
            ⟨index, filter, forward, none, limit⟩ { m with pageSize }
          ran.outcome = .done n ∧ lastCursor (deliveries ran.events) = none ∧
            (deliveries ran.events).flatMap Delivery.items = items := by
  obtain ⟨seen, hsees⟩ := Memory.exists_sees hkeyed hindex
  refine ⟨(Gateway.queried condition forward seen).filter (Memory.kept test), ?_,
    fun item => ?_, ?_⟩
  · exact (Gateway.ordered_queried hsees.ordered condition forward).filter _
  · simp [Gateway.mem_queried, hsees.mem_iff, Memory.kept, and_assoc]
  · intro retry limit pageSize hlimit hpage
    obtain ⟨n, after, events, -, hlast, hitems, hran⟩ :=
      Gateway.exists_queryAll (hcalm.resized pageSize) hpage retry
        ⟨index, filter, forward, none, limit⟩ hkey hfilter hlimit (hsees.resized pageSize)
        Memory.ahead_none m.tally
    refine ⟨n, fun calls hcalls => ?_⟩
    have hran := hran calls hcalls
    simp only at hran ⊢
    rw [hran]
    exact ⟨rfl, hlast, hitems⟩

theorem resumed_query_of_two :
    let table : Table := ⟨"orders", ⟨"user", some "day"⟩, .empty⟩
    let item (day : String) (paid : Bool) : Item :=
      ((SortedMap.empty.insert "user" (.string "u")).insert "day" (.string day)).insert "paid"
        (.boolean paid)
    let m := Memory.new table (some 1) [item "1" true, item "2" false]
    ∃ items : List Item, items.Pairwise (table.Before none false) ∧
      (∀ stored, stored ∈ items ↔ stored ∈ m.items.values ∧ table.covers none stored ∧
        (Condition.compare ⟨"user", []⟩ .equal (.string "u")).holds stored ∧
        (Condition.compare ⟨"paid", []⟩ .equal (.boolean true)).holds stored) ∧
      ∃ n, ∀ calls, n ≤ calls →
        (deliveries ((Gateway.inMemory table .standard).queryAll calls "user = \"u\""
          ⟨none, some "paid = true", false, none, some 1⟩ m).events).flatMap Delivery.items =
          items := by
  intro table item m
  have hkey : Condition.parse "user = \"u\"" =
      .ok (.compare ⟨"user", []⟩ .equal (.string "u")) := by
    with_unfolding_all rfl
  have hfilter : Condition.parse "paid = true" =
      .ok (.compare ⟨"paid", []⟩ .equal (.boolean true)) := by
    with_unfolding_all rfl
  have hindex : table.Registered none := table.registered_none
  obtain ⟨items, hordered, hmem, hrun⟩ := resumed_query (m := m) (Memory.keyed_new table _ _)
    ⟨rfl, rfl⟩ hindex hkey (.some hfilter) false
  obtain ⟨n, hn⟩ := hrun .standard (some 1) (some 1) (by decide) (by decide)
  exact ⟨items, hordered, hmem, n, fun calls hcalls => (hn calls hcalls).2.2⟩

end KeyedTable
