import KeyedTable.Proofs.Reading.Call
import KeyedTable.Proofs.Session.Course

/-! Reads in calls between which the table is changed. However it is, they hand out what they find
in order, and what stays where it is throughout they do not miss. -/

namespace KeyedTable

structure ReadCall where
  found : Memory
  outcome : Outcome Unit
  pages : List Delivery

/-- The calls of a read, each after a session on the table and from where the pages so far leave
off. There are no more calls once nothing is left. -/
def callsAmid (table : Table) (retry : RetryPolicy) (pauses : Pauses)
    (own : List Event → List Delivery) :
    List (List SessionStep × (Option Item → Action Memory Unit)) → Option Item → Memory →
      List ReadCall
  | [], _, _ => []
  | (steps, call) :: rounds, start, m =>
    let found := m.after table retry pauses steps
    let ran := call start found
    ⟨found, ran.outcome, own ran.events⟩ ::
      match resumption start (own ran.events) with
      | none => []
      | some next => callsAmid table retry pauses own rounds next ran.store

/-- What the calls hand out is in the order of the read, and a call that does not fail goes on until
nothing is left or its limit is reached. Once a page says that nothing is left, what was there at
every call and is wanted has been handed out once. -/
structure Steady (table : Table) (index : Option String) (forward : Bool) (limit : Option Nat)
    (wanted : Item → Prop) (start : Option Item) (calls : List ReadCall) : Prop where
  ordered : ((calls.flatMap ReadCall.pages).flatMap Delivery.items).Pairwise
    (table.Before index forward)
  finished : ∀ call ∈ calls, call.outcome = .done () →
    ∃ page, call.pages.getLast? = some page ∧
      (page.next = none ∨ ∃ n ∈ limit, n ≤ (call.pages.flatMap Delivery.items).length)
  complete : ∀ page, (calls.flatMap ReadCall.pages).getLast? = some page → page.next = none →
    ∀ item, (∀ call ∈ calls, item ∈ call.found.items.values) → table.covers index item →
      wanted item → table.Beyond index forward start item →
      ((calls.flatMap ReadCall.pages).flatMap Delivery.items).count item = 1

namespace Gateway

variable {m n : Memory} {index : Option String} {forward : Bool} {limit : Option Nat}

theorem called_callsAmid (retry : RetryPolicy) (pauses : Pauses) (due : Memory → Item → Prop)
    {number : Nat} {own : List Event → List Delivery}
    {rounds : List (List SessionStep × (Option Item → Action Memory Unit))}
    (hcall : ∀ round ∈ rounds, ∀ start found, m.Becomes found →
      found.Stays (round.2 start found).store ∧
        Calls limit m.table index forward (due found) start number
          (round.2 start found).outcome (own (round.2 start found).events))
    (hn : m.Becomes n) (start : Option Item) :
    let calls := callsAmid m.table retry pauses own rounds start n
    Called m.table index forward (fun item => ∀ call ∈ calls, due call.found item) start number
        (calls.flatMap ReadCall.pages) ∧
      ∀ call ∈ calls, Finished limit call.outcome call.pages := by
  induction rounds generalizing n start with
  | nil => exact ⟨.nothing, fun _ hmem => absurd hmem List.not_mem_nil⟩
  | cons round rounds ih =>
    obtain ⟨hround, hrounds⟩ := List.forall_mem_cons.mp hcall
    obtain ⟨steps, call⟩ := round
    have hfound : m.Becomes (n.after m.table retry pauses steps) := hn.after m.table steps
    obtain ⟨hstore, hown⟩ := hround start _ hfound
    simp only [callsAmid]
    cases hgoes : resumption start
        (own (call start (n.after m.table retry pauses steps)).events) with
    | none => simpa using ⟨hown.toCalled, hown.finished⟩
    | some next =>
      obtain ⟨hrest, hfinished⟩ := ih hrounds (hfound.trans hstore.toBecomes) next
      rw [List.flatMap_cons]
      exact ⟨(hown.toCalled.mono fun item h => h _ List.mem_cons_self).append hgoes
          (hrest.mono fun item h call hmem => h call (List.mem_cons_of_mem _ hmem)),
        List.forall_mem_cons.mpr ⟨hown.finished, hfinished⟩⟩

theorem steady_callsAmid (retry : RetryPolicy) (pauses : Pauses) (hkeyed : m.Keyed)
    {wanted : Item → Prop} (number : Nat) {own : List Event → List Delivery}
    {rounds : List (List SessionStep × (Option Item → Action Memory Unit))} (start : Option Item)
    (hcall : ∀ round ∈ rounds, ∀ start found, m.Becomes found →
      found.Stays (round.2 start found).store ∧
        Calls limit m.table index forward
          (fun item => item ∈ found.items.values ∧ m.table.covers index item ∧ wanted item) start
          number (round.2 start found).outcome (own (round.2 start found).events)) :
    Steady m.table index forward limit wanted start
      (callsAmid m.table retry pauses own rounds start m) := by
  obtain ⟨hcalled, hfinished⟩ := called_callsAmid retry pauses
    (fun found item => item ∈ found.items.values ∧ m.table.covers index item ∧ wanted item) hcall
    (.refl hkeyed) start
  refine ⟨hcalled.leg.ordered, hfinished,
    fun page hpage hnext item hstored hcovers hwanted hstart => ?_⟩
  have hstop : resumption start
      ((callsAmid m.table retry pauses own rounds start m).flatMap ReadCall.pages) = none := by
    simp [resumption, hpage, hnext]
  have hmem := hcalled.leg.complete item
    (fun call hcall => ⟨hstored call hcall, hcovers, hwanted⟩) hstart (by simp [hstop])
  have hdistinct := hcalled.leg.ordered.imp fun {a b} hab (heq : a = b) =>
    Table.before_irrefl forward b (heq ▸ hab)
  rw [List.Nodup.count hdistinct, if_pos hmem]

end Gateway

def queryAmid (table : Table) (retry : RetryPolicy) (pauses : Pauses) (key : String)
    (options : QueryOptions) (sessions : List (List SessionStep)) : Memory → List ReadCall :=
  callsAmid table retry pauses deliveries
    (sessions.map fun steps => (steps, fun start =>
      (Gateway.inMemory table retry).query key { options with start })) options.start

def scanAmid (table : Table) (retry : RetryPolicy) (pauses : Pauses) (options : ScanOptions)
    (sessions : List (List SessionStep)) (start : Option Item) : Memory → List ReadCall :=
  callsAmid table retry pauses deliveries
    (sessions.map fun steps => (steps, (Gateway.inMemory table retry).scan options)) start

/-- One segment in the calls of a scan in parts. At every call the others stand anywhere, and all go
on by any schedule. -/
def segmentAmid (table : Table) (retry : RetryPolicy) (pauses : Pauses) (total number : Nat)
    (options : ScanOptions) (rounds : List (List SessionStep × List Nat × (Nat → Option Item)))
    (start : Option Item) : Memory → List ReadCall :=
  callsAmid table retry pauses (pagesOf number)
    (rounds.map fun (steps, schedule, others) => (steps, fun start =>
      (Gateway.inMemory table retry).scanTogether pauses schedule total options
        (Gateway.cursorsFrom total number others start))) start

/-- A query, or a scan in one of its segments, that is resumed from its own cursors hands out items
in order, whatever is done to the table between two calls. Once nothing is left, each item that was
there all the time and satisfies the read has been handed out once. -/
theorem reads_amid_writes {m : Memory} (hkeyed : m.Keyed) (hpage : m.pageSize ≠ some 0)
    {index : Option String} (hindex : m.table.Registered index) {filter : Option String}
    {test : Option Condition} (hfilter : Filters filter test) {limit : Option Nat}
    (hlimit : limit ≠ some 0) (retry : RetryPolicy) (pauses : Pauses) (start : Option Item) :
    (∀ key condition, Condition.parse key = .ok condition →
      ∀ (forward : Bool) (sessions : List (List SessionStep)),
        Steady m.table index forward limit
          (fun item => condition.holds item ∧ test.all (·.holds item)) start
          (queryAmid m.table retry pauses key ⟨index, filter, forward, start, limit⟩ sessions m)) ∧
    (∀ sessions : List (List SessionStep),
      Steady m.table index true limit (fun item => test.all (·.holds item)) start
        (scanAmid m.table retry pauses ⟨index, filter, limit⟩ sessions start m)) ∧
    ∀ total number, number < total →
      ∀ rounds : List (List SessionStep × List Nat × (Nat → Option Item)),
        Steady m.table index true limit
          (fun item => test.all (·.holds item) ∧
            segmentOf (m.table.primaryOrder item) total = number) start
          (segmentAmid m.table retry pauses total number ⟨index, filter, limit⟩ rounds start
            m) := by
  refine ⟨fun key condition hkey forward sessions => ?_, fun sessions => ?_,
    fun total number hnumber rounds => ?_⟩
  · refine Gateway.steady_callsAmid retry pauses hkeyed 0 start ?_
    intro round hround start found hfound
    obtain ⟨steps, -, rfl⟩ := List.mem_map.mp hround
    have hcalls := @Gateway.calls_query found test retry hfound.keyed (hfound.pageSize ▸ hpage)
      ⟨index, filter, forward, start, limit⟩ (hfound.table ▸ hindex) key condition hkey hfilter
      hlimit
    rw [hfound.table] at hcalls
    exact hcalls
  · refine Gateway.steady_callsAmid retry pauses hkeyed 0 start ?_
    intro round hround start found hfound
    obtain ⟨steps, -, rfl⟩ := List.mem_map.mp hround
    have hcalls := @Gateway.calls_scan found test ⟨index, filter, limit⟩ retry hfound.keyed
      (hfound.pageSize ▸ hpage) (hfound.table ▸ hindex) hfilter hlimit start
    rw [hfound.table] at hcalls
    exact hcalls
  · refine Gateway.steady_callsAmid retry pauses hkeyed number start ?_
    intro round hround start found hfound
    obtain ⟨⟨steps, schedule, others⟩, -, rfl⟩ := List.mem_map.mp hround
    have hcalls := @Gateway.calls_scanTogether found test total ⟨index, filter, limit⟩ retry
      hfound.keyed (hfound.pageSize ▸ hpage) (hfound.table ▸ hindex) hfilter hlimit number hnumber
      others start pauses schedule
    rw [hfound.table] at hcalls
    exact ⟨hcalls.1, hcalls.2.1⟩

theorem reads_amid_writes_at_cursor :
    let table : Table := ⟨"orders", ⟨"user", some "day"⟩, .empty⟩
    let item (day : String) : Item :=
      (SortedMap.empty.insert "user" (.string "u")).insert "day" (.string day)
    let m := Memory.new table none [item "1", item "2", item "4"]
    let step (operation : Operation) : SessionStep :=
      .perform operation (fun _ => ⟨none, none, none⟩) []
    let sessions : List (List SessionStep) :=
      [[], [step (.batchWrite [.delete (item "1"), .put (item "0")]), .inject ⟨some 2, none, none⟩,
        step (.put (item "5") none)], [step (.put (item "3") none)], []]
    let filter := some "day <> \"3\""
    let test := Condition.compare ⟨"day", []⟩ .unequal (.string "3")
    let queried := queryAmid table .standard ⟨false, true⟩ "user = \"u\""
      ⟨none, filter, true, none, some 1⟩ sessions m
    let scanned := scanAmid table .standard ⟨false, true⟩ ⟨none, filter, some 1⟩ sessions none m
    let segment := segmentAmid table .standard ⟨false, true⟩ 2 1 ⟨none, filter, some 1⟩
      (sessions.map fun steps => (steps, [1, 0], fun _ => none)) none m
    (m.Keyed ∧ m.pageSize ≠ some 0 ∧ table.Registered none ∧ Filters filter (some test)) ∧
    (Steady table none true (some 1)
        (fun item => (Condition.compare ⟨"user", []⟩ .equal (.string "u")).holds item ∧
          test.holds item) none queried ∧
      queried.map (fun call => call.pages.map Delivery.items) =
        [[[item "1"]], [], [[item "2"]], [[], [item "4"]]]) ∧
    (Steady table none true (some 1) (fun item => test.holds item) none scanned ∧
      scanned.map (fun call => call.pages.map Delivery.items) =
        [[[item "1"]], [], [[item "2"]], [[], [item "4"]]]) ∧
    (Steady table none true (some 1)
        (fun item => test.holds item ∧ segmentOf (table.primaryOrder item) 2 = 1) none segment ∧
      segment.map (fun call => call.pages.map Delivery.items) =
        [[[item "2"]], [], [[item "4"]]]) := by
  intro table item m step sessions filter test queried scanned segment
  have hkeyed : m.Keyed := Memory.keyed_new table _ _
  have hpage : m.pageSize ≠ some 0 := by decide
  have hindex : table.Registered none := table.registered_none
  have hfilter : Filters filter (some test) := .reads (by with_unfolding_all rfl)
  have hkey : Condition.parse "user = \"u\"" =
      .ok (.compare ⟨"user", []⟩ .equal (.string "u")) := by
    with_unfolding_all rfl
  obtain ⟨hquery, hscan, hsegment⟩ := reads_amid_writes hkeyed hpage hindex hfilter
    (show some 1 ≠ some 0 by decide) .standard ⟨false, true⟩ none
  exact ⟨⟨hkeyed, hpage, hindex, hfilter⟩,
    ⟨hquery _ _ hkey true sessions, by decide +kernel⟩, ⟨hscan sessions, by decide +kernel⟩,
    hsegment 2 1 (by decide) _, by decide +kernel⟩

end KeyedTable
