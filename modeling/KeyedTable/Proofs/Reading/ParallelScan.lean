import KeyedTable.Proofs.Reading.Query

namespace KeyedTable

theorem segmentOf_lt (key : OrderKey) {total : Nat} (h : 0 < total) : segmentOf key total < total :=
  Nat.mod_lt _ h

def pagesOf (number : Nat) (events : List Event) : List Delivery :=
  (deliveries events).filter (·.segment == number)

@[simp] theorem pagesOf_append (number : Nat) (before after : List Event) :
    pagesOf number (before ++ after) = pagesOf number before ++ pagesOf number after := by
  simp [pagesOf]

theorem pagesOf_eq_nil {number : Nat} {events : List Event}
    (h : ∀ page ∈ deliveries events, page.segment ≠ number) : pagesOf number events = [] :=
  List.filter_eq_nil_iff.mpr fun page hpage => by simpa using h page hpage

theorem pagesOf_eq_self {number : Nat} {events : List Event}
    (h : ∀ page ∈ deliveries events, page.segment = number) :
    pagesOf number events = deliveries events :=
  List.filter_eq_self.mpr fun page hpage => by simpa using h page hpage

theorem mem_deliveries {page : Delivery} {events : List Event} :
    page ∈ deliveries events ↔ .delivered page ∈ events := by
  simp only [deliveries, List.mem_filterMap]
  constructor
  · rintro ⟨event, hmem, hevent⟩
    cases event with
    | delivered found => cases hevent; exact hmem
    | _ => cases hevent
  · exact fun h => ⟨_, h, rfl⟩

namespace Gateway

variable {m : Memory} {items : List Item} {test : Option Condition} {options : ScanOptions}
  {total : Nat}

def sentScan (table : Table) (test : Option Condition) (options : ScanOptions) (total : Nat)
    (start : Nat × Option Item) : Read :=
  let filter := test.map (·.compile none)
  { table := table.name
    index := options.index
    scope := .segment start.1 total
    filter := filter.map Compiled.expression
    placeholders := placeholdersOf filter
    start := start.2
    limit := options.limit }

theorem scanReads_eq {σ : Type} {g : Gateway σ} {start : Option (List (Option Item))}
    (hcursors : checkCursors total start = .ok ()) (hlimit : options.limit ≠ some 0)
    (hfilter : ReadsFilter options.filter test) :
    g.scanReads total options start =
      .ok ((segmentStarts total start).map (sentScan g.table test options total)) := by
  simp only [scanReads, hcursors, checkLimit, if_neg hlimit, bind, Except.bind,
    filterExpression_of_reads hfilter]
  rfl

def segmented (table : Table) (total number : Nat) (items : List Item) : List Item :=
  items.filter fun item => segmentOf (table.primaryOrder item) total == number

theorem serves_scan (hsees : m.Sees options.index items) (htest : ∀ c ∈ test, c.WellFormed)
    {start : Nat × Option Item} (h : start.1 < total) :
    m.Serves (sentScan m.table test options total start) (segmented m.table total start.1 items)
      test where
  table := rfl
  scope := if_neg (Nat.not_le.mpr h)
  filter := by
    cases test with
    | none => rfl
    | some c => exact Condition.resolveFilter_compile (htest c rfl) none
  candidates := by
    simp only [sentScan, Memory.candidates, hsees.visible]
    rfl
  ordered := hsees.ordered.filter _

def AsksOnly (total : Nat) (numbers : List Nat) (events : List Event) : Prop :=
  ∀ request refusal, Event.asked request refusal ∈ events →
    refusal = none ∧ ∃ r number, request = .read r ∧ r.scope = .segment number total ∧
      number ∈ numbers

section AsksOnly

variable {numbers others : List Nat} {events rest : List Event}

theorem AsksOnly.mono (h : AsksOnly total numbers events) (hsub : numbers ⊆ others) :
    AsksOnly total others events := by
  intro request refusal hmem
  obtain ⟨hnone, r, number, hr, hscope, hnumber⟩ := h request refusal hmem
  exact ⟨hnone, r, number, hr, hscope, hsub hnumber⟩

theorem AsksOnly.append (h : AsksOnly total numbers events) (hrest : AsksOnly total numbers rest) :
    AsksOnly total numbers (events ++ rest) := by
  intro request refusal hmem
  cases List.mem_append.mp hmem with
  | inl hmem => exact h request refusal hmem
  | inr hmem => exact hrest request refusal hmem

theorem AsksOnly.leavesAlone (hasks : AsksOnly total numbers rest)
    (hclosed : ∀ page ∈ deliveries events, page.next = none → page.segment ∉ numbers)
    (hevents : events.Pairwise Event.LeavesAlone) (hrest : rest.Pairwise Event.LeavesAlone) :
    (events ++ rest).Pairwise Event.LeavesAlone := by
  refine List.pairwise_append.mpr ⟨hevents, hrest, ?_⟩
  intro a ha b hb page read refusal hpage hnext hread hsame
  subst hpage hread
  obtain ⟨-, r, number, hr, hscope, hnumber⟩ := hasks _ _ hb
  cases hr
  rw [hscope] at hsame
  apply hclosed page (mem_deliveries.mpr ha) hnext
  rw [← hsame]
  exact hnumber

end AsksOnly

structure Round (m : Memory) (items : List Item) (test : Option Condition) (options : ScanOptions)
    (total : Nat) (starts : List (Nat × Option Item)) (rest : Nat → List Item)
    (events : List Event) (left : Nat → List Item) : Prop where
  share : ∀ start ∈ starts, Share m (sentScan m.table test options total start)
    (segmented m.table total start.1 items) (rest start.1) test (pagesOf start.1 events)
    (left start.1)
  idle : ∀ number, number ∉ starts.map Prod.fst → pagesOf number events = [] ∧ left number = []
  asked : AsksOnly total (starts.map Prod.fst) events
  leavesAlone : events.Pairwise Event.LeavesAlone

structure Awaits (m : Memory) (items : List Item) (options : ScanOptions) (total : Nat)
    (starts : List (Nat × Option Item)) (rest : Nat → List Item) : Prop where
  bounded : ∀ start ∈ starts, start.1 < total
  distinct : (starts.map Prod.fst).Nodup
  ahead : ∀ start ∈ starts, m.Ahead options.index true (segmented m.table total start.1 items)
    start.2 (rest start.1)

theorem Awaits.tail {start : Nat × Option Item} {starts : List (Nat × Option Item)}
    {rest : Nat → List Item} (h : Awaits m items options total (start :: starts) rest) :
    Awaits m items options total starts rest where
  bounded other hother := h.bounded other (List.mem_cons_of_mem _ hother)
  distinct := (List.nodup_cons.mp h.distinct).2
  ahead other hother := h.ahead other (List.mem_cons_of_mem _ hother)

theorem Round.cons {start : Nat × Option Item} {starts : List (Nat × Option Item)}
    {rest left : Nat → List Item} {events others : List Event} {leftover : List Item}
    (hfresh : start.1 ∉ starts.map Prod.fst)
    (hfirst : Portion m (sentScan m.table test options total start)
      (segmented m.table total start.1 items) (rest start.1) test events leftover)
    (h : Round m items test options total starts rest others left) :
    Round m items test options total (start :: starts) rest (events ++ others)
      (fun number => if number = start.1 then leftover else left number) := by
  have hsegment : ∀ page ∈ deliveries events, page.segment = start.1 := hfirst.segment
  have hothers : ∀ number, number ≠ start.1 →
      pagesOf number (events ++ others) = pagesOf number others := by
    intro number hnumber
    rw [pagesOf_append, pagesOf_eq_nil, List.nil_append]
    intro page hpage heq
    exact hnumber (heq.symm.trans (hsegment page hpage))
  have hasked : AsksOnly total [start.1] events := by
    intro request refusal hmem
    obtain ⟨hnone, r, hr, hscope⟩ := hfirst.asked request refusal hmem
    exact ⟨hnone, r, start.1, hr, hscope, List.mem_singleton_self _⟩
  refine ⟨fun other hother => ?_, fun number hnumber => ?_, ?_, ?_⟩
  · cases List.mem_cons.mp hother with
    | inl heq =>
      have hown : pagesOf start.1 (events ++ others) = deliveries events := by
        rw [pagesOf_append, pagesOf_eq_self hsegment, (h.idle start.1 hfresh).1, List.append_nil]
      simpa [heq, hown] using hfirst.toShare
    | inr hmem =>
      have hnumber : other.1 ≠ start.1 := fun heq => hfresh (heq ▸ List.mem_map_of_mem hmem)
      simpa [hothers other.1 hnumber, hnumber] using h.share other hmem
  · simp only [List.map_cons, List.mem_cons, not_or] at hnumber
    rw [hothers number hnumber.1, if_neg hnumber.1]
    exact h.idle number hnumber.2
  · exact (hasked.mono (by simp)).append (h.asked.mono (List.subset_cons_self _ _))
  · refine h.asked.leavesAlone (fun page hpage _ hmem => hfresh ?_) hfirst.leavesAlone h.leavesAlone
    rwa [hsegment page hpage] at hmem

theorem exists_round (hcalm : m.Calm) (hpage : m.pageSize ≠ some 0) (retry : RetryPolicy)
    (hsees : m.Sees options.index items) (htest : ∀ c ∈ test, c.WellFormed)
    (hlimit : options.limit ≠ some 0) {starts : List (Nat × Option Item)} {rest : Nat → List Item}
    (h : Awaits m items options total starts rest) (tally : Tally) :
    ∃ values after events left,
      Action.all (starts.map fun start => (inMemory m.table retry).readFrom (some none)
          (sentScan m.table test options total start)) { m with tally } =
        ⟨.done values, { m with tally := after }, events⟩ ∧
      Round m items test options total starts rest events left := by
  induction starts generalizing tally with
  | nil =>
    refine ⟨[], tally, [], fun _ => [], rfl, ?_, fun number _ => ⟨rfl, rfl⟩, ?_, .nil⟩
    · exact fun start hstart => absurd hstart List.not_mem_nil
    · exact fun request refusal hmem => absurd hmem List.not_mem_nil
  | cons start starts ih =>
    have hbounded := h.bounded start List.mem_cons_self
    have hahead := h.ahead start List.mem_cons_self
    have hshort : (rest start.1).length < m.items.size + 1 :=
      Nat.lt_succ_of_le <| calc
        (rest start.1).length ≤ (segmented m.table total start.1 items).length := hahead.length_le
        _ ≤ items.length := List.length_filter_le _ _
        _ ≤ m.items.size := hsees.length_le
    obtain ⟨between, events, leftover, hpages, hportion⟩ :=
      exists_portion retry hcalm hpage (some none) (serves_scan hsees htest hbounded) hahead hlimit
        hshort tally
    obtain ⟨values, after, others, left, hall, hround⟩ := ih h.tail between
    refine ⟨() :: values, after, events ++ others, _, ?_,
      hround.cons (List.nodup_cons.mp h.distinct).1 hportion⟩
    have hread : (inMemory m.table retry).readFrom (some none)
        (sentScan m.table test options total start) { m with tally } =
          ⟨.done (), { m with tally := between }, events⟩ := hpages
    simp only [List.map_cons, Action.all, hread, hall]

theorem pairwise_segmentStarts (segments : Nat) (start : Option (List (Option Item))) :
    ((segmentStarts segments start).map Prod.fst).Pairwise (· < ·) := by
  cases start with
  | none => simpa [segmentStarts, Function.comp_def] using List.pairwise_lt_range
  | some cursors =>
    have hnumbers : cursors.zipIdx.Pairwise fun a b => a.2 < b.2 := by
      apply List.pairwise_map.mp
      rw [List.zipIdx_map_snd]
      exact List.pairwise_lt_range' ..
    apply List.pairwise_map.mpr
    apply List.pairwise_filterMap.mpr
    refine hnumbers.imp fun {a b} hlt x hx y hy => ?_
    obtain ⟨_, _, rfl⟩ := Option.map_eq_some_iff.mp hx
    obtain ⟨_, _, rfl⟩ := Option.map_eq_some_iff.mp hy
    exact hlt

theorem nodup_segmentStarts (total : Nat) (start : Option (List (Option Item))) :
    ((segmentStarts total start).map Prod.fst).Nodup :=
  (pairwise_segmentStarts total start).imp Nat.ne_of_lt

def nextStarts (total : Nat) (events : List Event) : List (Nat × Option Item) :=
  segmentStarts total (some (segmentCursors total (deliveries events)))

theorem mem_nextStarts {events : List Event} {start : Nat × Option Item} :
    start ∈ nextStarts total events ↔
      start.1 < total ∧ ∃ key, lastCursor (pagesOf start.1 events) = some key ∧
        start.2 = some key := by
  obtain ⟨number, first⟩ := start
  have hcursor : ∀ cursor, (segmentCursors total (deliveries events))[number]? = some cursor ↔
      number < total ∧ lastCursor (pagesOf number events) = cursor := by
    intro cursor
    simp only [segmentCursors, List.getElem?_map, Option.map_eq_some_iff]
    constructor
    · rintro ⟨n, hn, hlast⟩
      obtain ⟨hlt, rfl⟩ := List.getElem?_eq_some_iff.mp hn
      rw [List.getElem_range] at hlast
      exact ⟨by simpa using hlt, hlast⟩
    · rintro ⟨hlt, hlast⟩
      exact ⟨number, List.getElem?_range hlt, hlast⟩
  simp only [nextStarts, segmentStarts, List.mem_filterMap, List.mem_zipIdx_iff_getElem?]
  constructor
  · rintro ⟨⟨cursor, index⟩, hindex, hkey⟩
    obtain ⟨key, hcursor', heq⟩ := Option.map_eq_some_iff.mp hkey
    obtain ⟨rfl, rfl⟩ := Prod.mk.inj heq
    obtain ⟨hlt, hlast⟩ := (hcursor _).mp hindex
    exact ⟨hlt, key, hlast.trans hcursor', rfl⟩
  · rintro ⟨hlt, key, hlast, hfirst⟩
    exact ⟨(some key, number), (hcursor _).mpr ⟨hlt, hlast⟩, by simp [hfirst]⟩

theorem mem_map_nextStarts {events : List Event} {number : Nat} :
    number ∈ (nextStarts total events).map Prod.fst ↔
      number < total ∧ lastCursor (pagesOf number events) ≠ none := by
  constructor
  · intro h
    obtain ⟨start, hstart, rfl⟩ := List.mem_map.mp h
    obtain ⟨hlt, key, hlast, -⟩ := mem_nextStarts.mp hstart
    exact ⟨hlt, by simp [hlast]⟩
  · rintro ⟨hlt, hlast⟩
    obtain ⟨key, hkey⟩ := Option.ne_none_iff_exists'.mp hlast
    have hstart : (number, some key) ∈ nextStarts total events :=
      mem_nextStarts.mpr ⟨hlt, key, hkey, rfl⟩
    exact List.mem_map_of_mem hstart

theorem segmentCursors_all_isNone (events : List Event) :
    (segmentCursors total (deliveries events)).all Option.isNone = true ↔
      ∀ number < total, lastCursor (pagesOf number events) = none := by
  simp [segmentCursors, pagesOf]

theorem exists_nextStarts {events : List Event}
    (h : ¬ (segmentCursors total (deliveries events)).all Option.isNone = true) :
    ∃ start, start ∈ nextStarts total events := by
  simp only [segmentCursors_all_isNone, Classical.not_forall] at h
  obtain ⟨number, hnumber, hlast⟩ := h
  obtain ⟨start, hstart, -⟩ := List.mem_map.mp (mem_map_nextStarts.mpr ⟨hnumber, hlast⟩)
  exact ⟨start, hstart⟩

theorem checkCursors_segmentCursors (htotal : 0 < total) (pages : List Delivery) :
    checkCursors total (some (segmentCursors total pages)) = .ok () := by
  simp [checkCursors, segmentCursors, Nat.ne_of_gt htotal]

theorem mem_starts_none (number : Nat) :
    number ∈ (segmentStarts total none).map Prod.fst ↔ number < total := by
  simp [segmentStarts]

theorem awaits_none (items : List Item) (options : ScanOptions) (total : Nat) :
    Awaits m items options total (segmentStarts total none)
      (fun number => segmented m.table total number items) where
  bounded _ hstart := (mem_starts_none _).mp (List.mem_map_of_mem hstart)
  distinct := nodup_segmentStarts total none
  ahead start hstart := by
    obtain ⟨number, -, rfl⟩ := List.mem_map.mp hstart
    exact Memory.ahead_none

structure Scanned (m : Memory) (test : Option Condition) (total : Nat)
    (starts : List (Nat × Option Item)) (rest : Nat → List Item) (events : List Event) : Prop where
  delivered : ∀ number < total,
    (pagesOf number events).flatMap Delivery.items = (rest number).filter (Memory.kept test)
  last : ∀ number < total, lastCursor (pagesOf number events) = none
  reached : ∀ number ∈ starts.map Prod.fst, pagesOf number events ≠ []
  within : ∀ page ∈ deliveries events, page.segment ∈ starts.map Prod.fst
  asked : AsksOnly total (starts.map Prod.fst) events
  leavesAlone : events.Pairwise Event.LeavesAlone

section Round

variable {starts : List (Nat × Option Item)} {rest left : Nat → List Item}
  {events others : List Event}

theorem Round.within (h : Round m items test options total starts rest events left) :
    ∀ page ∈ deliveries events, page.segment ∈ starts.map Prod.fst := by
  intro page hpage
  by_cases hmem : page.segment ∈ starts.map Prod.fst
  · exact hmem
  · have hown : page ∈ pagesOf page.segment events := List.mem_filter.mpr ⟨hpage, by simp⟩
    rw [(h.idle page.segment hmem).1] at hown
    exact absurd hown List.not_mem_nil

theorem Round.reached (h : Round m items test options total starts rest events left) :
    ∀ number ∈ starts.map Prod.fst, pagesOf number events ≠ [] := by
  intro number hnumber
  obtain ⟨start, hstart, rfl⟩ := List.mem_map.mp hnumber
  exact (h.share start hstart).nonempty

theorem Round.left_eq_nil (h : Round m items test options total starts rest events left)
    {number : Nat} (hnone : lastCursor (pagesOf number events) = none) : left number = [] := by
  by_cases hmem : number ∈ starts.map Prod.fst
  · obtain ⟨start, hstart, rfl⟩ := List.mem_map.mp hmem
    exact (h.share start hstart).finished hnone
  · exact (h.idle number hmem).2

theorem Round.delivered (h : Round m items test options total starts rest events left)
    (hidle : ∀ number < total, number ∉ starts.map Prod.fst → rest number = []) {number : Nat}
    (hnumber : number < total) :
    (pagesOf number events).flatMap Delivery.items ++ (left number).filter (Memory.kept test) =
      (rest number).filter (Memory.kept test) := by
  by_cases hmem : number ∈ starts.map Prod.fst
  · obtain ⟨start, hstart, rfl⟩ := List.mem_map.mp hmem
    exact (h.share start hstart).delivered
  · obtain ⟨hpages, hleft⟩ := h.idle number hmem
    simp [hpages, hleft, hidle number hnumber hmem]

theorem Round.goesOn (h : Round m items test options total starts rest events left)
    {start : Nat × Option Item}
    (hstart : start ∈ nextStarts total events) :
    start.1 ∈ starts.map Prod.fst ∧
      m.Ahead options.index true (segmented m.table total start.1 items) start.2 (left start.1) ∧
      (left start.1).length < (rest start.1).length := by
  obtain ⟨-, key, hlast, hkey⟩ := mem_nextStarts.mp hstart
  by_cases hmem : start.1 ∈ starts.map Prod.fst
  · refine ⟨hmem, ?_⟩
    obtain ⟨first, hfirst, hnumber⟩ := List.mem_map.mp hmem
    have hshare := h.share first hfirst
    rw [hnumber] at hshare
    rw [hkey]
    exact hshare.goesOn key hlast
  · rw [(h.idle start.1 hmem).1] at hlast
    cases hlast

theorem Round.awaits (h : Round m items test options total starts rest events left) :
    Awaits m items options total (nextStarts total events) left where
  bounded _ hstart := (mem_nextStarts.mp hstart).1
  distinct := nodup_segmentStarts total _
  ahead _ hstart := (h.goesOn hstart).2.1

theorem Round.finished (h : Round m items test options total starts rest events left) :
    ∀ number < total, number ∉ (nextStarts total events).map Prod.fst → left number = [] := by
  intro number hnumber hmem
  apply h.left_eq_nil
  cases hlast : lastCursor (pagesOf number events) with
  | none => rfl
  | some key => exact absurd (mem_map_nextStarts.mpr ⟨hnumber, by simp [hlast]⟩) hmem

theorem Round.length_left_lt (h : Round m items test options total starts rest events left)
    {bound : Nat} (hbound : ∀ start ∈ starts, (rest start.1).length ≤ bound) :
    ∀ start ∈ nextStarts total events, (left start.1).length < bound := by
  intro start hstart
  obtain ⟨hmem, -, hlength⟩ := h.goesOn hstart
  obtain ⟨before, hbefore, hnumber⟩ := List.mem_map.mp hmem
  rw [← hnumber] at hlength ⊢
  exact Nat.lt_of_lt_of_le hlength (hbound before hbefore)

theorem Round.scanned (h : Round m items test options total starts rest events left)
    (hidle : ∀ number < total, number ∉ starts.map Prod.fst → rest number = [])
    (hnone : ∀ number < total, lastCursor (pagesOf number events) = none) :
    Scanned m test total starts rest events where
  delivered number hnumber := by
    simpa [h.left_eq_nil (hnone number hnumber)] using h.delivered hidle hnumber
  last := hnone
  reached := h.reached
  within := h.within
  asked := h.asked
  leavesAlone := h.leavesAlone

theorem Round.append (h : Round m items test options total starts rest events left)
    (hidle : ∀ number < total, number ∉ starts.map Prod.fst → rest number = [])
    (hothers : Scanned m test total (nextStarts total events) left others) :
    Scanned m test total starts rest (events ++ others) := by
  have hstarted : (nextStarts total events).map Prod.fst ⊆ starts.map Prod.fst := by
    intro number hnumber
    obtain ⟨start, hstart, rfl⟩ := List.mem_map.mp hnumber
    exact (h.goesOn hstart).1
  refine ⟨fun number hnumber => ?_, fun number hnumber => ?_, fun number hnumber => ?_,
    fun page hpage => ?_, h.asked.append (hothers.asked.mono hstarted), ?_⟩
  · rw [pagesOf_append, List.flatMap_append, hothers.delivered number hnumber,
      h.delivered hidle hnumber]
  · by_cases hlast : lastCursor (pagesOf number events) = none
    · have hother : pagesOf number others = [] := by
        apply pagesOf_eq_nil
        intro page hpage heq
        exact (mem_map_nextStarts.mp (heq ▸ hothers.within page hpage)).2 hlast
      rw [pagesOf_append, hother, List.append_nil, hlast]
    · have hreached := hothers.reached number (mem_map_nextStarts.mpr ⟨hnumber, hlast⟩)
      rw [pagesOf_append, lastCursor_append hreached]
      exact hothers.last number hnumber
  · rw [pagesOf_append]
    simp [h.reached number hnumber]
  · rw [deliveries_append] at hpage
    cases List.mem_append.mp hpage with
    | inl hpage => exact h.within page hpage
    | inr hpage => exact hstarted (hothers.within page hpage)
  · refine hothers.asked.leavesAlone (fun page hpage hnext hmem => ?_) h.leavesAlone
      hothers.leavesAlone
    obtain ⟨start, hstart, hsegment⟩ := List.mem_map.mp (h.within page hpage)
    have hclosed := (h.share start hstart).closed page
      (List.mem_filter.mpr ⟨hpage, by simp [hsegment]⟩) hnext
    rw [hsegment] at hclosed
    exact (mem_map_nextStarts.mp hmem).2 hclosed

end Round

theorem parallelScan_eq {retry : RetryPolicy} {start : Option (List (Option Item))} {s t : Memory}
    {values : List Unit} {events : List Event} (hcursors : checkCursors total start = .ok ())
    (hlimit : options.limit ≠ some 0) (hfilter : ReadsFilter options.filter test)
    (h : Action.all ((segmentStarts total start).map fun start =>
      (inMemory m.table retry).readFrom (some none) (sentScan m.table test options total start)) s =
        ⟨.done values, t, events⟩) :
    (inMemory m.table retry).parallelScan total options start s = ⟨.done (), t, events⟩ := by
  have hall : Action.all ((segmentStarts total start).map
      ((inMemory m.table retry).readFrom (some none) ∘
        sentScan (inMemory m.table retry).table test options total)) s =
      ⟨.done values, t, events⟩ := h
  rw [parallelScan, scanReads_eq hcursors hlimit hfilter, Action.ofExcept_bind, List.map_map,
    Action.bind_of_done (by rw [hall]), hall]
  simp

theorem exists_parallelScanAll (hcalm : m.Calm) (hpage : m.pageSize ≠ some 0) (retry : RetryPolicy)
    (options : ScanOptions) (hfilter : ReadsFilter options.filter test)
    (hlimit : options.limit ≠ some 0) (hsees : m.Sees options.index items) (htotal : 0 < total)
    (start : Option (List (Option Item))) {rest : Nat → List Item} (bound : Nat)
    (hcursors : checkCursors total start = .ok ())
    (h : Awaits m items options total (segmentStarts total start) rest)
    (hidle : ∀ number < total, number ∉ (segmentStarts total start).map Prod.fst →
      rest number = [])
    (hbound : ∀ first ∈ segmentStarts total start, (rest first.1).length ≤ bound) (tally : Tally) :
    ∃ n after events, Scanned m test total (segmentStarts total start) rest events ∧
      ∀ calls, n ≤ calls →
        resume ((inMemory m.table retry).parallelScan total options)
          (fun pages =>
            let cursors := segmentCursors total pages
            if cursors.all Option.isNone then none else some (some cursors))
          calls start { m with tally } = ⟨.done n, { m with tally := after }, events⟩ := by
  induction bound using Nat.strongRecOn generalizing start rest tally with
  | ind bound ih =>
    obtain ⟨values, after, events, left, hall, hround⟩ :=
      exists_round hcalm hpage retry hsees hfilter.wellFormed hlimit h tally
    have hcall := parallelScan_eq hcursors hlimit hfilter hall
    by_cases hnone : (segmentCursors total (deliveries events)).all Option.isNone = true
    · have hscanned := hround.scanned hidle ((segmentCursors_all_isNone events).mp hnone)
      refine ⟨1, after, events, hscanned, ?_⟩
      exact resume_last hcall (by simp only [hnone, if_true])
    · -- Every segment that goes on has less to read than before, and one of them does.
      have hshorter := hround.length_left_lt hbound
      have hpositive : 0 < bound := by
        obtain ⟨first, hfirst⟩ := exists_nextStarts hnone
        exact Nat.lt_of_le_of_lt (Nat.zero_le _) (hshorter first hfirst)
      obtain ⟨rounds, last, others, hothers, hresume⟩ :=
        ih (bound - 1) (by omega) _ (checkCursors_segmentCursors htotal _) hround.awaits
          hround.finished (fun first hfirst => Nat.le_sub_one_of_lt (hshorter first hfirst)) after
      refine ⟨rounds + 1, last, events ++ others, hround.append hidle hothers, ?_⟩
      refine resume_more hcall ?_ hresume
      simp only [hnone]
      rfl

end Gateway

/-- Whoever resumes a parallel scan from its own cursors gets every item that the index covers and
that satisfies the filter, each of them once, in the segment of its primary key and there in the
order of the read. A segment that is finished is not read again, and no segment is asked for that
there is not. -/
theorem resumed_parallelScan {m : Memory} (hkeyed : m.Keyed) (hcalm : m.Calm)
    {index : Option String} (hindex : m.table.Registered index) {filter : Option String}
    {test : Option Condition} (hfilter : ReadsFilter filter test) {total : Nat}
    (htotal : 0 < total) :
    ∃ items : Nat → List Item,
      (∀ item, segmentOf (m.table.primaryOrder item) total < total) ∧
      (∀ number, (items number).Pairwise (m.table.Before index true) ∧
        ∀ item, item ∈ items number ↔ item ∈ m.items.values ∧ m.table.covers index item ∧
          test.all (·.holds item) ∧ segmentOf (m.table.primaryOrder item) total = number) ∧
      ∀ (retry : RetryPolicy) (limit pageSize : Option Nat), limit ≠ some 0 → pageSize ≠ some 0 →
        ∃ n, ∀ calls, n ≤ calls →
          let ran := (Gateway.inMemory m.table retry).parallelScanAll calls total
            ⟨index, filter, limit⟩ { m with pageSize }
          ran.outcome = .done n ∧
          (∀ page ∈ deliveries ran.events, page.segment < total) ∧
          (∀ number < total, lastCursor (pagesOf number ran.events) = none ∧
            (pagesOf number ran.events).flatMap Delivery.items = items number) ∧
          ran.events.Pairwise Event.LeavesAlone ∧
          ∀ request refusal, Event.asked request refusal ∈ ran.events →
            refusal = none ∧ ∃ read number, request = .read read ∧
              read.scope = .segment number total ∧ number < total := by
  obtain ⟨seen, hsees⟩ := Memory.exists_sees hkeyed hindex
  let items (number : Nat) : List Item :=
    (Gateway.segmented m.table total number seen).filter (Memory.kept test)
  refine ⟨items, fun item => segmentOf_lt _ htotal, fun number => ⟨?_, fun item => ?_⟩, ?_⟩
  · exact (hsees.ordered.filter _).filter _
  · simp only [items, Gateway.segmented, List.mem_filter, hsees.mem_iff, Memory.kept, beq_iff_eq]
    constructor
    · rintro ⟨⟨⟨hstored, hcovers⟩, hsegment⟩, htest⟩
      exact ⟨hstored, hcovers, htest, hsegment⟩
    · rintro ⟨hstored, hcovers, htest, hsegment⟩
      exact ⟨⟨⟨hstored, hcovers⟩, hsegment⟩, htest⟩
  · intro retry limit pageSize hlimit hpage
    have hcheck : checkCursors total none = .ok () := by simp [checkCursors, Nat.ne_of_gt htotal]
    obtain ⟨n, after, events, hscanned, hran⟩ :=
      Gateway.exists_parallelScanAll (hcalm.resized pageSize) hpage retry ⟨index, filter, limit⟩
        hfilter hlimit (hsees.resized pageSize) htotal none seen.length hcheck
        (Gateway.awaits_none seen _ total)
        (fun number hnumber hmem => absurd ((Gateway.mem_starts_none number).mpr hnumber) hmem)
        (fun _ _ => List.length_filter_le _ _) m.tally
    refine ⟨n, fun calls hcalls => ?_⟩
    have hran := hran calls hcalls
    simp only [Gateway.parallelScanAll] at hran ⊢
    rw [hran]
    refine ⟨rfl, fun page hpage => ?_, fun number hnumber => ?_, hscanned.leavesAlone,
      fun request refusal hmem => ?_⟩
    · exact (Gateway.mem_starts_none _).mp (hscanned.within page hpage)
    · exact ⟨hscanned.last number hnumber, hscanned.delivered number hnumber⟩
    · obtain ⟨hnone, read, number, hread, hscope, hnumber⟩ := hscanned.asked request refusal hmem
      exact ⟨hnone, read, number, hread, hscope, (Gateway.mem_starts_none number).mp hnumber⟩

theorem resumed_parallelScan_of_two :
    let table : Table := ⟨"orders", ⟨"user", none⟩, .empty⟩
    let item (user : String) (paid : Bool) : Item :=
      (SortedMap.empty.insert "user" (.string user)).insert "paid" (.boolean paid)
    let m := Memory.new table none [item "u" true, item "v" true, item "w" false]
    ∃ items : Nat → List Item,
      (∀ number stored, stored ∈ items number ↔ stored ∈ m.items.values ∧ table.covers none stored ∧
        (Condition.compare ⟨"paid", []⟩ .equal (.boolean true)).holds stored ∧
        segmentOf (table.primaryOrder stored) 2 = number) ∧
      ∃ n, ∀ calls, n ≤ calls → ∀ number < 2,
        (pagesOf number ((Gateway.inMemory table .standard).parallelScanAll calls 2
          ⟨none, some "paid = true", some 1⟩ { m with pageSize := some 1 }).events).flatMap
          Delivery.items = items number := by
  intro table item m
  have hfilter : Condition.parse "paid = true" =
      .ok (.compare ⟨"paid", []⟩ .equal (.boolean true)) := by
    with_unfolding_all rfl
  have hindex : table.Registered none := table.registered_none
  obtain ⟨items, -, hmem, hrun⟩ := resumed_parallelScan (m := m) (Memory.keyed_new table _ _)
    ⟨rfl, rfl⟩ hindex (.some hfilter) (show 0 < 2 by decide)
  obtain ⟨n, hn⟩ := hrun .standard (some 1) (some 1) (by decide) (by decide)
  refine ⟨items, fun number => (hmem number).2, n, fun calls hcalls number hnumber => ?_⟩
  exact ((hn calls hcalls).2.2.1 number hnumber).2

end KeyedTable
