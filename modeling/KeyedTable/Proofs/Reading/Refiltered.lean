import KeyedTable.Gateway.Session
import KeyedTable.Proofs.Condition.Expanding
import KeyedTable.Proofs.Memory.Throttled
import KeyedTable.Proofs.Reading.ParallelScan

namespace KeyedTable

def Read.refiltered (read : Read) (filter : Option String) (placeholders : Placeholders) : Read :=
  { read with filter, placeholders }

def Read.unfiltered (read : Read) : Read := read.refiltered none .empty

def Event.unfiltered : Event → Event
  | .asked (.read read) refusal => .asked (.read read.unfiltered) refusal
  | event => event

@[simp] theorem deliveries_unfiltered (events : List Event) :
    deliveries (events.map Event.unfiltered) = deliveries events := by
  rw [deliveries, deliveries, List.filterMap_map]
  congr 1
  funext event
  cases event with
  | asked request refusal => cases request <;> rfl
  | _ => rfl

namespace Action

variable {σ α β : Type}

def unfiltered (action : Action σ α) : Action σ α := fun s =>
  { action s with events := (action s).events.map Event.unfiltered }

theorem agree_of_unfiltered {a b : Action σ α} (h : a.unfiltered = b.unfiltered) (s : σ) :
    (a s).outcome = (b s).outcome ∧ (a s).store = (b s).store ∧
      deliveries (a s).events = deliveries (b s).events ∧
      (a s).events.map Event.unfiltered = (b s).events.map Event.unfiltered := by
  have hrun : a.unfiltered s = b.unfiltered s := congrFun h s
  simp only [unfiltered, Ran.mk.injEq] at hrun
  obtain ⟨houtcome, hstore, hevents⟩ := hrun
  refine ⟨houtcome, hstore, ?_, hevents⟩
  rw [← deliveries_unfiltered, hevents, deliveries_unfiltered]

@[simp] theorem unfiltered_bind (first : Action σ α) (next : α → Action σ β) :
    (first >>= next).unfiltered = first.unfiltered >>= fun value => (next value).unfiltered := by
  funext s
  simp only [unfiltered, bind_apply, bind]
  cases (first s).outcome <;> simp

@[simp] theorem unfiltered_all (actions : List (Action σ α)) :
    (all actions).unfiltered = all (actions.map unfiltered) := by
  induction actions with
  | nil => rfl
  | cons action actions ih =>
    funext s
    have hrest := congrFun ih (action s).store
    simp only [unfiltered] at hrest
    simp only [List.map_cons, all, ← hrest, unfiltered, List.map_append]

@[simp] theorem unfiltered_attempts (policy : RetryPolicy) (action : Action σ α) (left used : Nat) :
    (policy.attempts action left used).unfiltered =
      policy.attempts action.unfiltered left used := by
  induction left generalizing used with
  | zero => rfl
  | succ left ih =>
    funext s
    have hrest := congrFun (ih (used + 1)) (action s).store
    simp only [unfiltered] at hrest
    simp only [RetryPolicy.attempts, unfiltered]
    split
    · simp [← hrest, Event.unfiltered]
    · rfl

end Action

/-- With the other filter the store gives the same answers, wherever a page begins and whatever is
left of the limit. -/
def Store.Confuses {σ : Type} (store : Store σ) (read : Read) (filter : Option String)
    (placeholders : Placeholders) : Prop :=
  ∀ start limit s, store.answer (.read { read with start, limit }) s =
    store.answer (.read ({ read with start, limit }.refiltered filter placeholders)) s

namespace Gateway

variable {σ : Type} {g : Gateway σ} {read : Read} {filter : Option String}
  {placeholders : Placeholders}

theorem unfiltered_submit (h : g.store.Confuses read filter placeholders) :
    (g.submit (.read (read.refiltered filter placeholders))).unfiltered =
      (g.submit (.read read)).unfiltered := by
  have hask : (Action.ask g.store (.read (read.refiltered filter placeholders))).unfiltered =
      (Action.ask g.store (.read read)).unfiltered := by
    funext s
    simp only [Action.unfiltered, Action.ask_apply, ← h read.start read.limit s]
    rfl
  simp only [submit, RetryPolicy.run, Action.unfiltered_attempts, hask]

theorem unfiltered_pages (h : g.store.Confuses read filter placeholders) (rounds : Nat)
    (prev : Option (Option Item)) :
    (g.pages rounds prev (read.refiltered filter placeholders)).unfiltered =
      (g.pages rounds prev read).unfiltered := by
  induction rounds generalizing prev read with
  | zero => rfl
  | succ rounds ih =>
    simp only [pages, Action.unfiltered_bind, unfiltered_submit h]
    congr 1
    funext page
    congr 1
    funext _
    cases page.lastKey with
    | none => rfl
    | some key =>
      simp only [Read.refiltered]
      cases charge read.limit page.items.length with
      | none => rfl
      | some limit =>
        have hnext : g.store.Confuses { read with start := some key, limit } filter placeholders :=
          h
        exact ih hnext _

theorem unfiltered_readFrom (h : g.store.Confuses read filter placeholders)
    (prev : Option (Option Item)) :
    (g.readFrom prev (read.refiltered filter placeholders)).unfiltered =
      (g.readFrom prev read).unfiltered :=
  funext fun s => congrFun (unfiltered_pages h (g.store.horizon s + 1) prev) s

end Gateway

namespace Memory

variable {c c' : Condition}

theorem page_congr (h : ∀ item, c'.holds item = c.holds item) (m : Memory) (candidates : List Item)
    (index : Option String) (forward : Bool) (start : Option Item) (limit : Option Nat) :
    m.page candidates index forward start limit (some c') =
      m.page candidates index forward start limit (some c) := by
  simp only [page, Option.all_some, h]

theorem confuses_of_holds_eq {read : Read} {filter : Option String} {placeholders : Placeholders}
    (h : ∀ item, c'.holds item = c.holds item)
    (hfilter : read.placeholders.resolveFilter read.filter = .ok (some c))
    (hfilter' : placeholders.resolveFilter filter = .ok (some c'))
    (hcandidates : ∀ m : Memory,
      m.candidates (read.refiltered filter placeholders) = m.candidates read) :
    Store.memory.Confuses read filter placeholders := by
  intro start limit m
  have hread : ∀ n : Memory,
      n.read { read with start, limit } =
        n.read ({ read with start, limit }.refiltered filter placeholders) := by
    intro n
    have hcandidates : n.candidates { read with start, limit } =
        n.candidates ({ read with start, limit }.refiltered filter placeholders) :=
      (hcandidates n).symm
    simp only [Memory.read, hcandidates, Read.refiltered, hfilter, hfilter', bind, Except.bind,
      page_congr h]
  simp only [Store.memory, answer, serve, hread]
  rfl

end Memory

theorem Store.Confuses.beside {σ τ : Type} {store : Store σ} {read : Read} {filter : Option String}
    {placeholders : Placeholders} (h : store.Confuses read filter placeholders) :
    (store.beside τ).Confuses read filter placeholders := by
  intro start limit s
  simp only [Store.beside, h start limit s.1]

def Operation.refiltered (filter : String) : Operation → Operation
  | .query key options => .query key { options with filter := some filter }
  | .scan options start => .scan { options with filter := some filter } start
  | .parallelScan segments options start =>
    .parallelScan segments { options with filter := some filter } start
  | operation => operation

namespace Gateway

def beside {τ : Type} (table : Table) (retry : RetryPolicy)
    (visit : Delivery → Memory × τ → Memory × τ) : Gateway (Memory × τ) :=
  ⟨Store.memory.beside τ, table, retry, visit⟩

section

variable {c c' condition : Condition}

theorem confuses_sentQuery (h : ∀ item, c'.holds item = c.holds item) (hc : c.WellFormed)
    (hc' : c'.WellFormed) (hcondition : condition.WellFormed) (table : Table)
    (options : QueryOptions) :
    Store.memory.Confuses (sentQuery table condition (some c) options)
      (sentQuery table condition (some c') options).filter
      (sentQuery table condition (some c') options).placeholders := by
  refine Memory.confuses_of_holds_eq h (Condition.resolveFilter_compile hc _)
    (Condition.resolveFilter_compile hc' _) fun m => ?_
  have htest : ∀ d ∈ some c, d.WellFormed := by simpa using hc
  have htest' : ∀ d ∈ some c', d.WellFormed := by simpa using hc'
  have hkey := resolve_sentQuery hcondition htest table options
  have hkey' := resolve_sentQuery hcondition htest' table options
  exact (congrArg (· >>= _) hkey').trans (congrArg (· >>= _) hkey).symm

theorem confuses_sentScan (h : ∀ item, c'.holds item = c.holds item) (hc : c.WellFormed)
    (hc' : c'.WellFormed) (table : Table) (options : ScanOptions) (total : Nat)
    (first : Nat × Option Item) :
    Store.memory.Confuses (sentScan table (some c) options total first)
      (sentScan table (some c') options total first).filter
      (sentScan table (some c') options total first).placeholders :=
  Memory.confuses_of_holds_eq h (Condition.resolveFilter_compile hc _)
    (Condition.resolveFilter_compile hc' _) fun _ => rfl

end

variable {τ : Type} {table : Table} {retry : RetryPolicy}
  {visit : Delivery → Memory × τ → Memory × τ} {text other : String} {c c' : Condition}
  (hparse : Condition.parse text = .ok c) (hparse' : Condition.parse other = .ok c')
  (h : ∀ item, c'.holds item = c.holds item)

include hparse hparse' h

theorem unfiltered_query (key : String) (options : QueryOptions) :
    ((beside table retry visit).query key { options with filter := some other }).unfiltered =
      ((beside table retry visit).query key { options with filter := some text }).unfiltered := by
  by_cases hlimit : options.limit = some 0
  · simp [query, queryRead, checkLimit, hlimit, bind, Except.bind]
  cases hkey : compileKey key none with
  | error fault =>
    have hmapped :
        (compileKey key none).mapError Error.expression = .error (.expression fault) := by
      rw [hkey]
      rfl
    simp [query, queryRead, checkLimit, hlimit, hmapped, bind, Except.bind]
  | ok compiled =>
    obtain ⟨condition, hcondition, -⟩ := compileKey_eq_ok_iff.mp hkey
    have hread : (beside table retry visit).queryRead key { options with filter := some text } =
        .ok (sentQuery table condition (some c) options) :=
      queryRead_eq hcondition (.some hparse) hlimit
    have hread' : (beside table retry visit).queryRead key { options with filter := some other } =
        .ok (sentQuery table condition (some c') options) :=
      queryRead_eq hcondition (.some hparse') hlimit
    have hconfuses := confuses_sentQuery h (Condition.wellFormed_of_parse hparse)
      (Condition.wellFormed_of_parse hparse') (Condition.wellFormed_of_parse hcondition) table
      options
    simp only [query, hread, hread']
    exact unfiltered_readFrom (g := beside table retry visit) hconfuses.beside _

theorem unfiltered_parallelScan (segments : Nat) (options : ScanOptions)
    (start : Option (List (Option Item))) :
    ((beside table retry visit).parallelScan segments { options with filter := some other }
        start).unfiltered =
      ((beside table retry visit).parallelScan segments { options with filter := some text }
        start).unfiltered := by
  cases hcursors : checkCursors segments start with
  | error fault => simp [parallelScan, scanReads, hcursors, bind, Except.bind]
  | ok _ =>
    by_cases hlimit : options.limit = some 0
    · simp [parallelScan, scanReads, checkLimit, hlimit, hcursors, bind, Except.bind]
    have hreads : (beside table retry visit).scanReads segments
        { options with filter := some text } start =
        .ok ((segmentStarts segments start).map (sentScan table (some c) options segments)) :=
      scanReads_eq hcursors hlimit (.some hparse)
    have hreads' : (beside table retry visit).scanReads segments
        { options with filter := some other } start =
        .ok ((segmentStarts segments start).map (sentScan table (some c') options segments)) :=
      scanReads_eq hcursors hlimit (.some hparse')
    have hfrom : ∀ first,
        ((beside table retry visit).readFrom (some none)
            (sentScan table (some c') options segments first)).unfiltered =
          ((beside table retry visit).readFrom (some none)
            (sentScan table (some c) options segments first)).unfiltered := by
      intro first
      have hconfuses := confuses_sentScan h (Condition.wellFormed_of_parse hparse)
        (Condition.wellFormed_of_parse hparse') table options segments first
      exact unfiltered_readFrom (g := beside table retry visit) hconfuses.beside _
    simp only [parallelScan, hreads, hreads', Action.ofExcept_bind, Action.unfiltered_bind,
      Action.unfiltered_all, List.map_map, Function.comp_def, hfrom]

theorem unfiltered_perform (operation : Operation) :
    ((beside table retry visit).perform (operation.refiltered other)).unfiltered =
      ((beside table retry visit).perform (operation.refiltered text)).unfiltered := by
  cases operation with
  | query key options =>
    simp only [perform, Operation.refiltered, Action.unfiltered_bind,
      unfiltered_query hparse hparse' h]
  | scan options start =>
    simp only [perform, Operation.refiltered, Action.unfiltered_bind, scan,
      unfiltered_parallelScan hparse hparse' h]
  | parallelScan segments options start =>
    simp only [perform, Operation.refiltered, Action.unfiltered_bind,
      unfiltered_parallelScan hparse hparse' h]
  | _ => rfl

end Gateway

/-- A range is what its two comparisons say, a list of values what the comparisons with one after
the other say, absence is the negation of presence, and a group is what it encloses. So a filter and
the same filter with any ranges and lists written out in parentheses are not told apart by a table
in memory: on every page they hand out the same items with the same cursors. -/
theorem derived_conditions :
    (∀ (path : Path) (low high : Literal) (item : Item),
      (Condition.between path low high).holds item =
        (Condition.join .and (.compare path .atLeast low) (.compare path .atMost high)).holds
          item) ∧
    (∀ (path : Path) (first : Literal) (others : List Literal) (item : Item),
      (Condition.among path first others).holds item =
        (Condition.choice path first others).holds item) ∧
    (∀ (path : Path) (item : Item),
      (Condition.presence .notExists path).holds item =
        !(Condition.presence .exists path).holds item) ∧
    (∀ (inner : Condition) (item : Item), (Condition.group inner).holds item = inner.holds item) ∧
    ∀ {text : String} {c c' : Condition}, Condition.parse text = .ok c → c.Expanded c' →
      (∃ other, Condition.parse other = .ok c') ∧
      ∀ other, Condition.parse other = .ok c' →
        ∀ {τ : Type} (table : Table) (retry : RetryPolicy)
          (visit : Delivery → Memory × τ → Memory × τ) (operation : Operation) (s : Memory × τ),
          let g := Gateway.beside table retry visit
          let ran := g.perform (operation.refiltered text) s
          let ran' := g.perform (operation.refiltered other) s
          ran'.outcome = ran.outcome ∧ ran'.store = ran.store ∧
            deliveries ran'.events = deliveries ran.events ∧
            ran'.events.map Event.unfiltered = ran.events.map Event.unfiltered := by
  refine ⟨fun path low high item => (Condition.holds_range path low high item).symm,
    fun path first others item => (Condition.holds_choice path first others item).symm,
    fun path item => ?_, fun inner item => rfl, fun {text c c'} hparse h => ⟨?_, ?_⟩⟩
  · cases hlookup : path.lookup item <;> simp [Condition.holds, Presence.holds, hlookup]
  · have hwell := h.wellFormed (Condition.wellFormed_of_parse hparse)
    exact ⟨c'.print, Condition.parse_print hwell⟩
  · intro other hparse' τ table retry visit operation s
    exact Action.agree_of_unfiltered
      (Gateway.unfiltered_perform hparse hparse' h.holds_eq operation) s

theorem derived_conditions_of_scan :
    let table : Table := ⟨"orders", ⟨"user", none⟩, .empty⟩
    let item (user total : String) : Item :=
      (SortedMap.empty.insert "user" (.string user)).insert "total" (.number total)
    let m := Memory.new table (some 1) [item "a" "5", item "b" "10", item "c" "1e0"]
    let g : Gateway (Memory × Unit) := Gateway.beside table .standard fun _ s => s
    let scanned (filter : String) : List Delivery :=
      deliveries (g.perform (.scan ⟨none, some filter, none⟩ none) (m, ())).events
    scanned "((paid = true or paid = false) or (total >= 1 and total <= 9))" =
      scanned "(paid in (true, false) or total between 1 and 9)" := by
  intro table item m g scanned
  have hparse : Condition.parse "(paid in (true, false) or total between 1 and 9)" =
      .ok (.group (.join .or (.among ⟨"paid", []⟩ (.boolean true) [.boolean false])
        (.between ⟨"total", []⟩ (.number "1") (.number "9")))) := by
    with_unfolding_all rfl
  have hparse' : Condition.parse
      "((paid = true or paid = false) or (total >= 1 and total <= 9))" =
      .ok (.group (.join .or
        (.group (Condition.choice ⟨"paid", []⟩ (.boolean true) [.boolean false]))
        (.group (Condition.range ⟨"total", []⟩ (.number "1") (.number "9"))))) := by
    with_unfolding_all rfl
  have hran := (derived_conditions.2.2.2.2 hparse
    (.group (.join .or (.among _ _ _) (.between _ _ _)))).2 _ hparse' table .standard
    (fun _ s => s) (.scan ⟨none, none, none⟩ none) (m, ())
  exact hran.2.2.1

end KeyedTable
