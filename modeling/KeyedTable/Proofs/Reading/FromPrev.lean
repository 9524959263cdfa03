import KeyedTable.Proofs.Gateway.Conditional
import KeyedTable.Proofs.Gateway.Placeholders
import KeyedTable.Proofs.Reading.Limit

namespace KeyedTable

/-- So many calls read on to the end and hand out these items. More calls are not made. -/
def Exhausts {σ : Type} (read : Nat → Ran σ Nat) (items : List Item) : Prop :=
  ∃ n, ∀ calls, n ≤ calls → (read calls).outcome = .done n ∧
    lastCursor (deliveries (read calls).events) = none ∧
    (deliveries (read calls).events).flatMap Delivery.items = items

namespace Memory

variable {m : Memory} {index : Option String} {forward : Bool} {items rest : List Item}
  {test : Option Condition}

theorem registered_of_visible (h : m.visible index = .ok items) : m.table.Registered index := by
  rintro name ⟨⟩
  cases hschema : m.table.indexes.get? name with
  | none => simp [visible, hschema] at h
  | some schema => rfl

theorem registered_of_read {read : Read} {page : Page} (h : m.read read = .ok page) :
    m.table.Registered read.index := by
  obtain ⟨_, -, h⟩ := exists_of_bind_ok h
  obtain ⟨_, hcandidates, -⟩ := exists_of_bind_ok h
  unfold candidates at hcandidates
  split at hcandidates
  · obtain ⟨_, -, hcandidates⟩ := exists_of_bind_ok hcandidates
    obtain ⟨_, hvisible, -⟩ := exists_of_bind_ok hcandidates
    exact registered_of_visible hvisible
  · obtain ⟨_, hvisible, -⟩ := exists_of_bind_ok hcandidates
    exact registered_of_visible hvisible

theorem Turn.exists_kept {page : Page} {item : Item} {others : List Item}
    (h : Turn m index forward items rest test page) (hpage : page.items = item :: others) :
    ∃ later, rest.filter (kept test) = item :: later := by
  cases h with
  | last _ hitems => exact ⟨others, hitems.symm.trans hpage⟩
  | @more seen left key hrest _ _ hitems _ _ =>
    refine ⟨others ++ left.filter (kept test), ?_⟩
    rw [hrest, List.filter_append, ← hitems, hpage]
    rfl

theorem filter_beyond_first {item : Item} {later : List Item}
    (hordered : items.Pairwise (m.table.Before index forward))
    (hfirst : items.filter (kept test) = item :: later) :
    (items.filter (m.isBeyond index forward (some (m.table.cursor index item)))).filter
      (kept test) = later := by
  have hkept : (item :: later).Pairwise (m.table.Before index forward) :=
    hfirst ▸ hordered.filter _
  have hlater : later.filter (m.isBeyond index forward (some item)) = later :=
    List.filter_eq_self.mpr fun other hother =>
      (isBeyond_some_iff item other).mpr ((List.pairwise_cons.mp hkept).1 other hother)
  have hitem : ¬ m.isBeyond index forward (some item) item :=
    fun h => Table.before_irrefl forward item ((isBeyond_some_iff item item).mp h)
  rw [isBeyond_cursor, List.filter_comm, hfirst, List.filter_cons_of_neg hitem, hlater]

end Memory

namespace Gateway

section

variable {σ : Type} {g : Gateway σ} {key : String} {options : QueryOptions}

theorem accepted_query {read : Read} (h : g.queryRead key options = .ok read) :
    options.limit ≠ some 0 ∧ ∃ condition test, Condition.parse key = .ok condition ∧
      Filters options.filter test := by
  obtain ⟨_, hlimit, h⟩ := exists_of_bind_ok h
  obtain ⟨compiled, hkey, h⟩ := exists_of_bind_ok h
  obtain ⟨filter, hfilter, -⟩ := exists_of_bind_ok h
  obtain ⟨condition, hcondition, -⟩ := compileKey_eq_ok_iff.mp (eq_ok_of_mapError hkey)
  refine ⟨limit_ne_zero_of_check hlimit, condition, ?_⟩
  obtain ⟨test, htest⟩ | ⟨text, htext, hblank, flaw, hparse⟩ :=
    exists_filters_or_malformed options.filter
  · exact ⟨test, hcondition, htest⟩
  · have hfault := refusal?_filterExpression options.filter (some compiled)
    rw [hfilter, Option.mem_def.mp htext] at hfault
    simp [filterFault, syntaxFault, hblank, hparse, refusal?] at hfault

theorem query_plain {plain : Option String}
    (h : ∀ previous, filterExpression options.filter previous = filterExpression plain previous)
    (start : Option Item) :
    g.query key { options with start } = g.query key { options with filter := plain, start } := by
  simp only [query, queryRead, h]

theorem exists_queryRead {s : σ} {first : Delivery} {more : List Delivery}
    (hpages : deliveries (g.query key options s).events = first :: more) :
    ∃ read, g.queryRead key options = .ok read := by
  cases hread : g.queryRead key options with
  | ok read => exact ⟨read, rfl⟩
  | error error =>
    rw [query, hread] at hpages
    cases hpages

theorem TurnByTurn.exists_first {rounds : Nat} {prev : Option Item} {read : Read} {s : σ}
    {turns : List (Turn σ)} {ran : Ran σ Unit} (h : g.TurnByTurn rounds prev read s turns ran)
    {first : Delivery} {more : List Delivery} (hpages : deliveries ran.events = first :: more) :
    ∃ turn later page, turns = turn :: later ∧ turn.read = read ∧ turn.found = s ∧
      turn.result = .ok page ∧ first.items = page.items := by
  rw [h.deliveries_eq] at hpages
  cases turns with
  | nil => cases hpages
  | cons turn later =>
    obtain ⟨hread, hfound⟩ := h.begins turn rfl
    refine ⟨turn, later, ?_⟩
    cases hresult : turn.result with
    | ok page =>
      have hturn : turn.handedOut? g prev = some ⟨page.items, turn.read.scope.segmentNumber, prev,
          page.lastKey.map (g.table.cursor turn.read.index)⟩ := by
        simp [Turn.handedOut?, Turn.page?, hresult, Except.toOption]
      rw [List.filterMap_cons_some hturn] at hpages
      obtain ⟨rfl, -⟩ := List.cons.inj hpages
      exact ⟨page, rfl, hread, hfound, rfl, rfl⟩
    | error error =>
      -- A turn that fails is the last one.
      cases later with
      | nil => simp [Turn.handedOut?, Turn.page?, hresult, Except.toOption] at hpages
      | cons next later =>
        obtain ⟨⟨page, _, hpage, -⟩, -⟩ := List.isChain_cons_cons.mp h.goesOn
        rw [hresult] at hpage
        cases hpage

end

variable {m : Memory} {items : List Item} {condition : Condition} {test : Option Condition}

theorem TurnByTurn.read_eq {retry : RetryPolicy} {rounds : Nat} {prev : Option Item} {read : Read}
    {turns : List (Turn Memory)} {ran : Ran Memory Unit} (hkeyed : m.Keyed)
    (h : (inMemory m.table retry).TurnByTurn rounds prev read m turns ran) {turn : Turn Memory}
    {page : Page} (hturn : turn ∈ turns) (hfound : turn.found = m)
    (hresult : turn.result = .ok page) : m.read turn.read = .ok page := by
  obtain ⟨htried, houtcome⟩ := h.sent turn hturn
  obtain ⟨u, hu, hlast, -⟩ := htried.exists_last (I := m.Stays)
    (fun u detail t hu hanswer => by
      obtain ⟨-, rfl⟩ := Prod.mk.inj hanswer
      exact hu.answer turn.read)
    (by rw [hfound]; exact .refl hkeyed)
  rw [houtcome, hresult] at hlast
  exact hu.read_of_ok (Outcome.ofExcept_eq_done.mp hlast.symm)

theorem exists_first_item (hkeyed : m.Keyed) (hpage : m.pageSize ≠ some 0) {retry : RetryPolicy}
    {options : QueryOptions} {key : String} (hkey : Condition.parse key = .ok condition)
    (hfilter : Filters options.filter test) (hlimit : options.limit ≠ some 0)
    (hstart : options.start = none) {first : Delivery} {more : List Delivery}
    (hpages : deliveries ((inMemory m.table retry).query key options m).events = first :: more)
    (hitems : first.items ≠ []) :
    ∃ items item later, m.Sees options.index items ∧
      (queried condition options.forward items).filter (Memory.kept test) = item :: later ∧
      first.items.head? = some item ∧
      ∀ page ∈ first :: more, page.prev = some (m.table.cursor options.index item) := by
  obtain ⟨plain, hplain, hsame⟩ := hfilter.exists_plain
  rw [query_plain (g := inMemory m.table retry) hsame options.start] at hpages
  have haccepted : (inMemory m.table retry).queryRead key { options with filter := plain } =
      .ok (sentQuery m.table condition test { options with filter := plain }) :=
    queryRead_eq hkey hplain hlimit
  obtain ⟨-, turns, prev, hprev, -, hturns, hdeliveries⟩ := query_turns haccepted m
  obtain ⟨turn, others, page, rfl, hturn, hfound, hresult, hfirst⟩ := hturns.exists_first hpages
  have hread := hturn ▸ hturns.read_eq hkeyed List.mem_cons_self hfound hresult
  obtain ⟨items, hsees⟩ := Memory.exists_sees hkeyed (Memory.registered_of_read hread)
  have hserves : m.Serves (sentQuery m.table condition test { options with filter := plain })
      (queried condition options.forward items) test :=
    serves_query hsees (Condition.wellFormed_of_parse hkey) hplain.wellFormed
  have hpageeq : m.page (queried condition options.forward items) options.index options.forward
      options.start options.limit test = page :=
    Except.ok.inj (hserves.read_eq.symm.trans hread)
  rw [hstart] at hpageeq
  have hcut := Memory.turn_page hserves.ordered Memory.ahead_none hlimit hpage test
  obtain ⟨item, rest, hcons⟩ := List.exists_cons_of_ne_nil (hfirst ▸ hitems)
  obtain ⟨later, hkept⟩ := (hpageeq ▸ hcut).exists_kept hcons
  have hbegan : prev = some (m.table.cursor options.index item) := by
    rw [hprev]
    simp [inMemory, Turn.page?, hresult, hcons, hstart, Except.toOption]
  refine ⟨items, item, later, hsees, hkept, by rw [hfirst, hcons]; rfl, fun page hpage => ?_⟩
  rw [← hpages, hdeliveries] at hpage
  obtain ⟨turn, -, hhanded⟩ := List.mem_filterMap.mp hpage
  obtain ⟨_, -, rfl⟩ := Option.map_eq_some_iff.mp hhanded
  exact hbegan

theorem exhausts_query (hcalm : m.Calm) (hpage : m.pageSize ≠ some 0) (retry : RetryPolicy)
    {options : QueryOptions} {key : String} (hkey : Condition.parse key = .ok condition)
    (hfilter : Filters options.filter test) (hlimit : options.limit ≠ some 0)
    (hsees : m.Sees options.index items) (start : Option Item) :
    Exhausts (fun calls =>
        (inMemory m.table retry).queryAll calls key { options with start } m)
      (((queried condition options.forward items).filter
        (m.isBeyond options.index options.forward start)).filter (Memory.kept test)) := by
  obtain ⟨plain, hplain, hsame⟩ := hfilter.exists_plain
  have hahead := Memory.ahead_start (ordered_queried hsees.ordered condition options.forward) start
  obtain ⟨n, after, events, -, hlast, hitems, hran⟩ := exists_queryAll hcalm hpage retry
    { options with filter := plain, start } hkey hplain hlimit hsees hahead m.tally
  refine ⟨n, fun calls hcalls => ?_⟩
  have hrun := hran calls hcalls
  simp only [queryAll, query_plain hsame] at hrun ⊢
  rw [hrun]
  exact ⟨rfl, hlast, hitems⟩

end Gateway

/-- A query that was given no start says on all its pages where it began, unless its first page is
empty. Whoever begins a query there and reads on to its end gets what the query gives to whoever
reads on to its end, except for the first item. -/
theorem query_from_prev {m : Memory} (hkeyed : m.Keyed) (hcalm : m.Calm)
    (hpage : m.pageSize ≠ some 0) (retry : RetryPolicy) {key : String} {options : QueryOptions}
    (hstart : options.start = none) {first : Delivery} {more : List Delivery}
    (hpages : deliveries ((Gateway.inMemory m.table retry).query key options m).events =
      first :: more)
    (hitems : first.items ≠ []) :
    ∃ prev item later, (∀ page ∈ first :: more, page.prev = some prev) ∧
      first.items.head? = some item ∧
      Exhausts (fun calls => (Gateway.inMemory m.table retry).queryAll calls key options m)
        (item :: later) ∧
      Exhausts (fun calls => (Gateway.inMemory m.table retry).queryAll calls key
        { options with start := some prev } m) later := by
  obtain ⟨read, hread⟩ := Gateway.exists_queryRead hpages
  obtain ⟨hlimit, condition, test, hkey, hfilter⟩ := Gateway.accepted_query hread
  obtain ⟨items, item, later, hsees, hkept, hfirst, hprev⟩ :=
    Gateway.exists_first_item hkeyed hpage hkey hfilter hlimit hstart hpages hitems
  have hexhausts := Gateway.exhausts_query hcalm hpage retry hkey hfilter hlimit hsees
  have hordered := Gateway.ordered_queried hsees.ordered condition options.forward
  refine ⟨m.table.cursor options.index item, item, later, hprev, hfirst, ?_, ?_⟩
  · have hwhole := hexhausts none
    rw [Memory.ahead_none.beyond, hkept, ← hstart] at hwhole
    exact hwhole
  · have hafter := hexhausts (some (m.table.cursor options.index item))
    rw [Memory.filter_beyond_first hordered hkept] at hafter
    exact hafter

theorem query_from_prev_of_two :
    let table : Table :=
      ⟨"orders", ⟨"user", some "day"⟩, SortedMap.empty.insert "totals" ⟨"user", some "total"⟩⟩
    let item (day total : String) (paid : Bool) : Item :=
      (((SortedMap.empty.insert "user" (.string "u")).insert "day" (.string day)).insert "total"
        (.number total)).insert "paid" (.boolean paid)
    let m := Memory.new table (some 2) [item "1" "30" false, item "2" "20" true, item "3" "10" true]
    let options : QueryOptions := ⟨some "totals", some "paid = true", false, none, none⟩
    let query := (Gateway.inMemory table .standard).query "user = \"u\"" options
    let read (start : Option Item) (calls : Nat) : Ran Memory Nat :=
      (Gateway.inMemory table .standard).queryAll calls "user = \"u\"" { options with start } m
    (m.Keyed ∧ m.Calm ∧ m.pageSize ≠ some 0) ∧
      (deliveries (query m).events).map Delivery.items =
        [[item "2" "20" true], [item "3" "10" true]] ∧
      ∃ prev later, (∀ page ∈ deliveries (query m).events, page.prev = some prev) ∧
        Exhausts (read none) (item "2" "20" true :: later) ∧ Exhausts (read (some prev)) later := by
  intro table item m options query read
  have hkeyed : m.Keyed := Memory.keyed_new table _ _
  have hcalm : m.Calm := ⟨rfl, rfl⟩
  have hpage : m.pageSize ≠ some 0 := by decide
  have hitems : (deliveries (query m).events).map Delivery.items =
      [[item "2" "20" true], [item "3" "10" true]] := by
    decide +kernel
  refine ⟨⟨hkeyed, hcalm, hpage⟩, hitems, ?_⟩
  obtain ⟨first, more, hpages, hfirst, -⟩ := List.map_eq_cons_iff.mp hitems
  obtain ⟨prev, stored, later, hprev, hstored, hwhole, hrest⟩ :=
    query_from_prev hkeyed hcalm hpage .standard (show options.start = none from rfl) hpages
      (by rw [hfirst]; exact List.cons_ne_nil _ _)
  rw [hfirst] at hstored
  obtain rfl := Option.some.inj hstored
  exact ⟨prev, later, hpages ▸ hprev, hwhole, hrest⟩

end KeyedTable
