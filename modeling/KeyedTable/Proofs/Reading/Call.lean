import KeyedTable.Proofs.Reading.Leg
import KeyedTable.Proofs.Reading.PageByPage

namespace KeyedTable

def resumption (start : Option Item) (pages : List Delivery) : Option (Option Item) :=
  match pages.getLast? with
  | none => some start
  | some page => page.next.map some

theorem resumption_append {start next : Option Item} {before : List Delivery}
    (h : resumption start before = some next) (after : List Delivery) :
    resumption start (before ++ after) = resumption next after := by
  cases hlast : after.getLast? with
  | none =>
    obtain rfl := List.getLast?_eq_none_iff.mp hlast
    simpa [resumption] using h
  | some page => simp [resumption, List.getLast?_append, hlast]

structure Called (table : Table) (index : Option String) (forward : Bool) (due : Item → Prop)
    (start : Option Item) (number : Nat) (pages : List Delivery) : Prop where
  leg : Leg table index forward due start (pages.flatMap Delivery.items) (resumption start pages)
  segment : ∀ page ∈ pages, page.segment = number

namespace Called

variable {table : Table} {index : Option String} {forward : Bool} {due due' : Item → Prop}
  {start next : Option Item} {number : Nat} {pages others : List Delivery}

theorem nothing : Called table index forward due start number [] :=
  ⟨.nothing, fun _ hmem => absurd hmem List.not_mem_nil⟩

theorem mono (h : Called table index forward due start number pages)
    (hdue : ∀ item, due' item → due item) :
    Called table index forward due' start number pages :=
  ⟨h.leg.mono hdue, h.segment⟩

theorem append (h : Called table index forward due start number pages)
    (hnext : resumption start pages = some next)
    (h' : Called table index forward due next number others) :
    Called table index forward due start number (pages ++ others) where
  leg := by
    rw [List.flatMap_append, resumption_append hnext]
    exact (hnext ▸ h.leg).append h'.leg
  segment page hpage := (List.mem_append.mp hpage).elim (h.segment page) (h'.segment page)

end Called

/-- What a filter asks of an item: nothing where its text is absent or blank. -/
inductive Filters : Option String → Option Condition → Prop
  | absent : Filters none none
  | blank {text} : isBlankText text → Filters (some text) none
  | reads {text condition} : Condition.parse text = .ok condition →
      Filters (some text) (some condition)

theorem Filters.exists_plain {filter : Option String} {test : Option Condition}
    (h : Filters filter test) :
    ∃ plain, ReadsFilter plain test ∧
      ∀ previous, filterExpression filter previous = filterExpression plain previous := by
  cases h with
  | absent => exact ⟨none, .none, fun _ => rfl⟩
  | blank hblank => exact ⟨none, .none, fun _ => by simp [filterExpression, compileFilter, hblank]⟩
  | reads hparse => exact ⟨_, .some hparse, fun _ => rfl⟩

namespace Gateway

variable {m s : Memory} {read : Read} {items : List Item} {test : Option Condition}

theorem called_page (hpage : m.pageSize ≠ some 0) (h : m.Serves read items test)
    (hlimit : read.limit ≠ some 0) (prev : Option (Option Item)) {page : Page}
    (hread : m.page items read.index read.scope.isForward read.start read.limit test = page) :
    Called m.table read.index read.scope.isForward
        (fun item => item ∈ items ∧ Memory.kept test item) read.start read.scope.segmentNumber
        [delivery m.table prev read page] ∧
      resumption read.start [delivery m.table prev read page] = page.lastKey.map some := by
  have hleg := Memory.leg_page h.ordered read.start hlimit hpage test
  rw [hread] at hleg
  have hnext : page.lastKey.map (m.table.cursor read.index) = page.lastKey := by
    cases hkey : page.lastKey with
    | none => rfl
    | some key => exact congrArg some (Memory.cursor_of_lastKey (hread ▸ hkey)).1
  have hgoes : resumption read.start [delivery m.table prev read page] = page.lastKey.map some :=
    congrArg (Option.map some) hnext
  refine ⟨⟨?_, fun page' hmem => List.mem_singleton.mp hmem ▸ rfl⟩, hgoes⟩
  rw [hgoes]
  simpa [delivery] using hleg

theorem PageByPage.called {g : Gateway Memory} {rounds : Nat} {prev : Option (Option Item)}
    {own : List Happening} {outcome : Outcome Unit}
    (hpages : g.PageByPage rounds prev read own outcome) (htable : g.table = m.table)
    (hpage : m.pageSize ≠ some 0) (h : m.Serves read items test) (hlimit : read.limit ≠ some 0)
    (hread : ∀ read page, .exchanged (.read read) (.ok page) ∈ own → m.read read = .ok page) :
    Called m.table read.index read.scope.isForward
      (fun item => item ∈ items ∧ Memory.kept test item) read.start read.scope.segmentNumber
      (deliveries (own.map Happening.event)) := by
  induction hpages with
  | cutOff => exact .nothing
  | refused hattempted => exact hattempted.deliveries_eq ▸ .nothing
  | @last _ prev read own page hattempted _ =>
    have hown := Except.ok.inj
      (h.read_eq.symm.trans (hread read page (List.mem_append_left _ hattempted.last_mem)))
    obtain ⟨hfirst, -⟩ := called_page hpage h hlimit prev hown
    rw [List.map_append, deliveries_append, hattempted.deliveries_eq, List.nil_append, htable]
    exact hfirst
  | @more _ prev read own key limit rest _ page hattempted hkey hcharge _ ih =>
    have hown := Except.ok.inj
      (h.read_eq.symm.trans (hread read page (List.mem_append_left _ hattempted.last_mem)))
    obtain ⟨hfirst, hgoes⟩ := called_page hpage h hlimit prev hown
    have hrest := ih (h.resumed (some key) limit) (charge_ne_zero hcharge) fun read page hmem =>
      hread read page (List.mem_append_right own (.tail _ hmem))
    rw [hkey] at hgoes
    rw [List.map_append, deliveries_append, hattempted.deliveries_eq, List.nil_append,
      List.map_cons, Happening.event, deliveries_cons, htable]
    exact hfirst.append hgoes hrest

structure Calls (limit : Option Nat) (table : Table) (index : Option String) (forward : Bool)
    (due : Item → Prop) (start : Option Item) (number : Nat) (outcome : Outcome Unit)
    (pages : List Delivery) : Prop extends Called table index forward due start number pages where
  finished : Finished limit outcome pages

theorem calls_query (retry : RetryPolicy) (hkeyed : m.Keyed) (hpage : m.pageSize ≠ some 0)
    {options : QueryOptions} (hindex : m.table.Registered options.index) {key : String}
    {condition : Condition} (hkey : Condition.parse key = .ok condition)
    (hfilter : Filters options.filter test) (hlimit : options.limit ≠ some 0) :
    let ran := (inMemory m.table retry).query key options m
    m.Stays ran.store ∧
      Calls options.limit m.table options.index options.forward
        (fun item => item ∈ m.items.values ∧ m.table.covers options.index item ∧
          condition.holds item ∧ test.all (·.holds item)) options.start 0 ran.outcome
        (deliveries ran.events) := by
  obtain ⟨plain, hplain, hsame⟩ := hfilter.exists_plain
  obtain ⟨items, hsees⟩ := Memory.exists_sees hkeyed hindex
  have hquery : (inMemory m.table retry).query key options =
      (inMemory m.table retry).query key { options with filter := plain } := by
    simp only [query, queryRead, hsame]
  have hserves : m.Serves (sentQuery m.table condition test { options with filter := plain }) _
      test := serves_query hsees (Condition.wellFormed_of_parse hkey) hplain.wellFormed
  obtain ⟨own, outcome, t, hran, hpages, hfollows⟩ := (inMemory m.table retry).exists_pageByPage
    (m.items.size + 1) (options.start.map fun start => some (m.table.cursor options.index start))
    (sentQuery m.table condition test { options with filter := plain }) m
  obtain ⟨hstays, hanswered⟩ := hfollows.keeps_reads
    (fun _ _ hmem => (hpages.asked hmem).imp fun _ => And.left)
    (fun read _ hu => hu.answer read) (fun _ _ hu => hu) (Memory.Stays.refl hkeyed)
  rw [hquery, @query_eq m condition test { options with filter := plain } retry key hkey hplain
    hlimit m, hran]
  refine ⟨hstays, (hpages.called rfl hpage hserves hlimit fun read page hmem => ?_).mono
    fun item hitem => ?_, hpages.finished⟩
  · obtain ⟨u, hu, hanswer⟩ := hanswered read page hmem
    exact hu.read_of_ok hanswer
  · obtain ⟨hstored, hcovers, hholds, htest⟩ := hitem
    exact ⟨mem_queried.mpr ⟨(hsees.mem_iff item).mpr ⟨hstored, hcovers⟩, hholds⟩, htest⟩

section Scan

variable {total : Nat} {options : ScanOptions}

def cursorsFrom (total number : Nat) (others : Nat → Option Item) (start : Option Item) :
    Option (List (Option Item)) :=
  start.map fun key => (List.range total).map fun i => if i = number then some key else others i

theorem mem_segmentStarts_cursorsFrom {number : Nat} (hnumber : number < total)
    (others : Nat → Option Item) (start : Option Item) :
    (number, start) ∈ segmentStarts total (cursorsFrom total number others start) := by
  cases start with
  | none => simp [cursorsFrom, segmentStarts, hnumber]
  | some key =>
    refine List.mem_filterMap.mpr ⟨(some key, number), ?_, rfl⟩
    simp [List.mem_zipIdx_iff_getElem?, hnumber]

theorem checkCursors_cursorsFrom {number : Nat} (hnumber : number < total)
    (others : Nat → Option Item) (start : Option Item) :
    checkCursors total (cursorsFrom total number others start) = .ok () := by
  cases start <;> simp [cursorsFrom, checkCursors, Nat.ne_of_gt (Nat.zero_lt_of_lt hnumber)]

theorem scanReads_of_filters {σ : Type} {g : Gateway σ} {cursors : Option (List (Option Item))}
    (hfilter : Filters options.filter test) (hlimit : options.limit ≠ some 0)
    (hcursors : checkCursors total cursors = .ok ()) :
    g.scanReads total options cursors =
      .ok ((segmentStarts total cursors).map (sentScan g.table test options total)) := by
  obtain ⟨plain, hplain, hsame⟩ := hfilter.exists_plain
  have hplainly := @scanReads_eq test { options with filter := plain } total _ g cursors hcursors
    hlimit hplain
  simp only [scanReads, hsame] at hplainly ⊢
  exact hplainly

theorem nodup_segmentNumbers {σ : Type} {g : Gateway σ} {cursors : Option (List (Option Item))}
    {reads : List Read} (h : g.scanReads total options cursors = .ok reads) :
    (reads.map fun read => read.scope.segmentNumber).Nodup := by
  have hnumbers := congrArg (List.map fun read => read.1.segmentNumber) (scanReads_starts h)
  simp only [List.map_map, Function.comp_def] at hnumbers
  rw [hnumbers]
  exact nodup_segmentStarts total cursors

/-- Of one segment, no page is lost or added by the others, in whatever order they go on. -/
theorem calls_scanTogether (retry : RetryPolicy) (hkeyed : m.Keyed) (hpage : m.pageSize ≠ some 0)
    (hindex : m.table.Registered options.index) (hfilter : Filters options.filter test)
    (hlimit : options.limit ≠ some 0) {number : Nat} (hnumber : number < total)
    (others : Nat → Option Item) (start : Option Item) (pauses : Pauses) (schedule : List Nat) :
    let ran := (inMemory m.table retry).scanTogether pauses schedule total options
      (cursorsFrom total number others start) m
    m.Stays ran.store ∧
      Calls options.limit m.table options.index true
        (fun item => item ∈ m.items.values ∧ m.table.covers options.index item ∧
          test.all (·.holds item) ∧ segmentOf (m.table.primaryOrder item) total = number) start
        number ran.outcome (pagesOf number ran.events) ∧
      ∀ page ∈ deliveries ran.events, page.segment < total := by
  intro ran
  obtain ⟨plain, hplain, -⟩ := hfilter.exists_plain
  obtain ⟨items, hsees⟩ := Memory.exists_sees hkeyed hindex
  have hreads : (inMemory m.table retry).scanReads total options _ = _ :=
    scanReads_of_filters hfilter hlimit (checkCursors_cursorsFrom hnumber others start)
  have hdistinct := nodup_segmentNumbers hreads
  have hscopes := scanReads_scope hreads
  obtain ⟨parts, whole, h⟩ :=
    (inMemory m.table retry).exists_parted_scanTogether m pauses schedule hreads
  obtain ⟨hstays, hanswered⟩ := h.follows.keeps_reads (fun _ _ hmem => h.asked_read hmem)
    (fun read _ hu => hu.answer read) (fun _ _ hu => hu) (Memory.Stays.refl hkeyed)
  have hsegments : ∀ page ∈ deliveries ran.events, page.segment < total := by
    intro page hpage
    obtain ⟨read, hread, hsegment⟩ := h.segment page hpage
    obtain ⟨own, hown, hscope⟩ := hscopes read hread
    rw [hsegment, hscope]
    exact hown
  refine ⟨hstays, ?_, hsegments⟩
  obtain ⟨before, after, hstarts⟩ :=
    List.append_of_mem (mem_segmentStarts_cursorsFrom hnumber others start)
  have hparted := h
  rw [hstarts, List.map_append, List.map_cons] at hparted hdistinct
  obtain ⟨part, hpart, rounds, hpages, hown⟩ :=
    hparted.exists_segment (ne_of_nodup_middle hdistinct)
  have hserves : m.Serves (sentScan m.table test options total (number, start)) _ test :=
    serves_scan hsees hplain.wellFormed hnumber
  have hcalled := hpages.called rfl hpage hserves hlimit fun read page hmem => by
    obtain ⟨u, hu, hanswer⟩ := hanswered read page
      ((h.merges.sublist _ (List.mem_map_of_mem hpart)).subset hmem)
    exact hu.read_of_ok hanswer
  rw [show pagesOf number ran.events = deliveries (part.own.map Happening.event) from hown]
  refine ⟨hcalled.mono fun item hitem => ?_, fun hdone => hpages.finished ?_⟩
  · obtain ⟨hstored, hcovers, htest, hsegment⟩ := hitem
    exact ⟨List.mem_filter.mpr ⟨(hsees.mem_iff item).mpr ⟨hstored, hcovers⟩, by simp [hsegment]⟩,
      htest⟩
  · obtain ⟨values, hvalues, -⟩ := Outcome.map_eq_done_iff.mp (h.outcome.symm.trans hdone)
    have hall := Outcome.all_eq_done_iff.mp hvalues
    obtain ⟨value, -, hvalue⟩ := List.mem_map.mp (hall ▸ List.mem_map_of_mem hpart)
    exact hvalue.symm

theorem calls_scan (retry : RetryPolicy) (hkeyed : m.Keyed) (hpage : m.pageSize ≠ some 0)
    (hindex : m.table.Registered options.index) (hfilter : Filters options.filter test)
    (hlimit : options.limit ≠ some 0) (start : Option Item) :
    let ran := (inMemory m.table retry).scan options start m
    m.Stays ran.store ∧
      Calls options.limit m.table options.index true
        (fun item => item ∈ m.items.values ∧ m.table.covers options.index item ∧
          test.all (·.holds item)) start 0 ran.outcome (deliveries ran.events) := by
  have hscan : (inMemory m.table retry).scanTogether ⟨false, false⟩ [] 1 options
      (cursorsFrom 1 0 (fun _ => none) start) = (inMemory m.table retry).scan options start := by
    rw [scanTogether_alone]
    · cases start <;> rfl
    · cases start <;> simp [cursorsFrom, segmentStarts]
  obtain ⟨hstays, hcalls, hsegments⟩ := calls_scanTogether retry hkeyed hpage hindex hfilter hlimit
    Nat.one_pos (fun _ => none) start ⟨false, false⟩ []
  rw [hscan] at hstays hcalls hsegments
  rw [pagesOf_eq_self fun page hmem => Nat.lt_one_iff.mp (hsegments page hmem)] at hcalls
  refine ⟨hstays, hcalls.toCalled.mono fun item hitem => ?_, hcalls.finished⟩
  obtain ⟨hstored, hcovers, htest⟩ := hitem
  exact ⟨hstored, hcovers, htest, Nat.mod_one _⟩

end Scan

end Gateway

end KeyedTable
