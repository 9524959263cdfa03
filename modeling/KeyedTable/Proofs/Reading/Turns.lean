import Mathlib.Data.List.Chain
import KeyedTable.Proofs.Gateway.Attempts
import KeyedTable.Proofs.Memory.Progress
import KeyedTable.Store.Script

namespace KeyedTable

variable {σ : Type}

namespace Gateway

/-- What a read comes to that may take so many turns. -/
inductive Paged (g : Gateway σ) :
    (rounds : Nat) → (prev : Option (Option Item)) → Read → σ → Ran σ Unit → Prop
  | cutOff {prev read s} : Paged g 0 prev read s ⟨.unfinished, s, []⟩
  | failed {rounds prev read s error t events} :
      g.submit (.read read) s = ⟨.failed error, t, events⟩ →
      Paged g (rounds + 1) prev read s ⟨.failed error, t, events⟩
  | last {rounds prev read s page t events} :
      g.submit (.read read) s = ⟨.done page, t, events⟩ →
      (page.lastKey = none ∨ charge read.limit page.items.length = none) →
      Paged g (rounds + 1) prev read s
        ⟨.done (), g.visit (delivery g.table prev read page) t,
          events ++ [.delivered (delivery g.table prev read page)]⟩
  | more {rounds prev read s page t events key limit ran} :
      g.submit (.read read) s = ⟨.done page, t, events⟩ →
      page.lastKey = some key → charge read.limit page.items.length = some limit →
      Paged g rounds (some (delivery g.table prev read page).prev)
        { read with start := some key, limit } (g.visit (delivery g.table prev read page) t) ran →
      Paged g (rounds + 1) prev read s
        ⟨ran.outcome, ran.store,
          events ++ .delivered (delivery g.table prev read page) :: ran.events⟩

theorem paged_pages (g : Gateway σ) (rounds : Nat) (prev : Option (Option Item)) (read : Read)
    (s : σ) : g.Paged rounds prev read s (g.pages rounds prev read s) := by
  induction rounds generalizing prev read s with
  | zero => exact .cutOff
  | succ rounds ih =>
    obtain ⟨result, houtcome⟩ := (tried_submit g (.read read) s).ended
    cases result with
    | error error =>
      rw [pages, Action.bind_of_failed houtcome]
      exact .failed (by rw [← Outcome.ofExcept, ← houtcome])
    | ok page =>
      have hsubmit : g.submit (.read read) s =
          ⟨.done page, (g.submit (.read read) s).store, (g.submit (.read read) s).events⟩ := by
        rw [← Outcome.ofExcept, ← houtcome]
      rw [pages_of_done hsubmit]
      cases hkey : page.lastKey with
      | none => exact .last hsubmit (.inl hkey)
      | some key =>
        cases hcharge : charge read.limit page.items.length with
        | none => exact .last hsubmit (.inr hcharge)
        | some limit => exact .more hsubmit hkey hcharge (ih _ _ _)

end Gateway

theorem exists_of_charge_none {limit : Option Nat} {fetched : Nat}
    (h : charge limit fetched = none) : ∃ n ∈ limit, n ≤ fetched := by
  cases limit with
  | none => cases h
  | some n =>
    simp only [charge, ite_eq_left_iff, reduceCtorEq, imp_false, Decidable.not_not] at h
    exact ⟨n, rfl, h⟩

structure Turn (σ : Type) where
  read : Read
  found : σ
  result : Except Error Page

namespace Turn

variable (g : Gateway σ) (prev : Option Item) (turn : Turn σ)

def sent : Ran σ Page := g.submit (.read turn.read) turn.found

def page? : Option Page := turn.result.toOption

def handedOut? : Option Delivery :=
  turn.page?.map fun page =>
    ⟨page.items, turn.read.scope.segmentNumber, prev,
      page.lastKey.map (g.table.cursor turn.read.index)⟩

def events : List Event :=
  (turn.sent g).events ++ ((turn.handedOut? g prev).map Event.delivered).toList

def leaves : σ :=
  match turn.handedOut? g prev with
  | some page => g.visit page (turn.sent g).store
  | none => (turn.sent g).store

end Turn

namespace Gateway

/-- One turn after the other, of so many at most. -/
structure TurnByTurn (g : Gateway σ) (rounds : Nat) (prev : Option Item) (first : Read) (s : σ)
    (turns : List (Turn σ)) (ran : Ran σ Unit) : Prop where
  begins : ∀ turn ∈ turns.head?, turn.read = first ∧ turn.found = s
  sent : ∀ turn ∈ turns, Tried g.store g.retry (.read turn.read) 0 turn.found (turn.sent g) ∧
    (turn.sent g).outcome = .ofExcept turn.result
  alike : ∀ turn ∈ turns, ∃ start limit, turn.read = { first with start, limit }
  goesOn : turns.IsChain fun turn next => ∃ page key, turn.result = .ok page ∧
    page.lastKey = some key ∧ next.read.start = some key ∧ next.found = turn.leaves g prev
  events : ran.events = turns.flatMap (Turn.events g prev)
  store : ran.store = (turns.getLast?.map (Turn.leaves g prev)).getD s
  ends : match ran.outcome with
    | .done _ => ∃ last ∈ turns.getLast?, ∃ page, last.result = .ok page ∧
        (page.lastKey = none ∨ ∃ limit ∈ last.read.limit, limit ≤ page.items.length)
    | .failed error => ∃ last ∈ turns.getLast?, last.result = .error error
    | .unfinished => turns.length = rounds ∧
        ∀ last ∈ turns.getLast?, ∃ page, last.result = .ok page ∧ page.lastKey ≠ none

namespace TurnByTurn

variable {g : Gateway σ} {rounds : Nat} {prev : Option Item} {read : Read} {s t : σ}
  {turns : List (Turn σ)} {ran : Ran σ Unit} {events : List Event}

theorem deliveries_eq (h : g.TurnByTurn rounds prev read s turns ran) :
    deliveries ran.events = turns.filterMap (Turn.handedOut? g prev) := by
  have hturn : ∀ turn ∈ turns,
      deliveries (turn.events g prev) = (turn.handedOut? g prev).toList := by
    intro turn hmem
    rw [Turn.events, deliveries_append, (h.sent turn hmem).1.deliveries_eq, List.nil_append]
    cases turn.handedOut? g prev <;> rfl
  rw [h.events, List.filterMap_eq_flatMap_toList]
  refine Eq.trans List.filterMap_flatMap ?_
  exact List.flatMap_congr hturn

theorem single {turn : Turn σ} (hread : turn.read = read) (hfound : turn.found = s)
    (hsent : (turn.sent g).outcome = .ofExcept turn.result)
    (hevents : ran.events = turn.events g prev) (hstore : ran.store = turn.leaves g prev)
    (hends : match ran.outcome with
      | .done _ => ∃ page, turn.result = .ok page ∧
          (page.lastKey = none ∨ ∃ limit ∈ turn.read.limit, limit ≤ page.items.length)
      | .failed error => turn.result = .error error
      | .unfinished => False) :
    g.TurnByTurn (rounds + 1) prev read s [turn] ran where
  begins other hmem := by cases hmem; exact ⟨hread, hfound⟩
  sent other hmem := by
    cases List.mem_singleton.mp hmem
    exact ⟨tried_submit g _ _, hsent⟩
  alike other hmem := by
    cases List.mem_singleton.mp hmem
    exact ⟨read.start, read.limit, hread⟩
  goesOn := List.isChain_singleton turn
  events := by rw [hevents, List.flatMap_singleton]
  store := hstore
  ends := by
    cases houtcome : ran.outcome with
    | done value =>
      rw [houtcome] at hends
      exact ⟨turn, rfl, hends⟩
    | failed error =>
      rw [houtcome] at hends
      exact ⟨turn, rfl, hends⟩
    | unfinished =>
      rw [houtcome] at hends
      exact hends.elim

theorem cons {turn : Turn σ} {page : Page} {key : Item} {limit : Option Nat}
    (hread : turn.read = read) (hfound : turn.found = s) (hresult : turn.result = .ok page)
    (hsent : (turn.sent g).outcome = .done page) (hkey : page.lastKey = some key)
    (h : g.TurnByTurn rounds prev { read with start := some key, limit } (turn.leaves g prev) turns
      ran) :
    g.TurnByTurn (rounds + 1) prev read s (turn :: turns)
      ⟨ran.outcome, ran.store, turn.events g prev ++ ran.events⟩ where
  begins other hmem := by cases hmem; exact ⟨hread, hfound⟩
  sent := List.forall_mem_cons.mpr ⟨⟨tried_submit g _ _, by rw [hsent, hresult]; rfl⟩, h.sent⟩
  alike := by
    refine List.forall_mem_cons.mpr ⟨⟨read.start, read.limit, hread⟩, fun other hmem => ?_⟩
    obtain ⟨start, limit, hother⟩ := h.alike other hmem
    exact ⟨start, limit, hother⟩
  goesOn := by
    refine List.isChain_cons.mpr ⟨fun next hnext => ?_, h.goesOn⟩
    obtain ⟨hfirst, hstore⟩ := h.begins next hnext
    exact ⟨page, key, hresult, hkey, by rw [hfirst], hstore⟩
  events := by rw [List.flatMap_cons, h.events]
  store := by rw [h.store, List.getLast?_cons]; cases turns.getLast? <;> rfl
  ends := by
    have hends := h.ends
    cases houtcome : ran.outcome with
    | done value =>
      rw [houtcome] at hends
      obtain ⟨last, hlast, hend⟩ := hends
      exact ⟨last, by rw [List.getLast?_cons, hlast]; rfl, hend⟩
    | failed error =>
      rw [houtcome] at hends
      obtain ⟨last, hlast, hend⟩ := hends
      exact ⟨last, by rw [List.getLast?_cons, hlast]; rfl, hend⟩
    | unfinished =>
      rw [houtcome] at hends
      obtain ⟨hlength, hgoes⟩ := hends
      refine ⟨congrArg (· + 1) hlength, fun last hlast => ?_⟩
      rw [List.getLast?_cons] at hlast
      cases hlater : turns.getLast? with
      | none =>
        rw [hlater] at hlast
        cases hlast
        exact ⟨page, hresult, by simp [hkey]⟩
      | some later =>
        rw [hlater] at hlast
        cases hlast
        exact hgoes later hlater

end TurnByTurn

theorem Paged.exists_turns {g : Gateway σ} {rounds : Nat} {prev : Option (Option Item)}
    {read : Read} {s : σ} {ran : Ran σ Unit} (h : g.Paged rounds prev read s ran) :
    ∃ turns, g.TurnByTurn rounds
      (prev.getD (((turns.head?.bind Turn.page?).bind (·.items.head?)).map
        (g.table.cursor read.index))) read s turns ran := by
  induction h with
  | @cutOff prev read s =>
    exact ⟨[], by simp, by simp, by simp, .nil, rfl, rfl, rfl, by simp⟩
  | @failed rounds prev read s error t events hsubmit =>
    let turn : Turn σ := ⟨read, s, .error error⟩
    have hsent : turn.sent g = ⟨.failed error, t, events⟩ := hsubmit
    refine ⟨[turn], .single rfl rfl (by rw [hsent]; rfl) ?_ ?_ rfl⟩
    · rw [Turn.events, hsent]
      exact (List.append_nil _).symm
    · exact (congrArg Ran.store hsent).symm
  | @last rounds prev read s page t events hsubmit hends =>
    let turn : Turn σ := ⟨read, s, .ok page⟩
    have hsent : turn.sent g = ⟨.done page, t, events⟩ := hsubmit
    refine ⟨[turn], .single rfl rfl (by rw [hsent]; rfl) ?_ ?_ ⟨page, rfl, ?_⟩⟩
    · rw [Turn.events, hsent]
      rfl
    · exact (congrArg (fun sent : Ran σ Page => g.visit _ sent.store) hsent).symm
    · exact hends.imp_right exists_of_charge_none
  | @more rounds prev read s page t events key limit ran hsubmit hkey hcharge _ ih =>
    let turn : Turn σ := ⟨read, s, .ok page⟩
    have hsent : turn.sent g = ⟨.done page, t, events⟩ := hsubmit
    let settled := (delivery g.table prev read page).prev
    have hleaves : turn.leaves g settled = g.visit (delivery g.table prev read page) t :=
      congrArg (fun sent : Ran σ Page => g.visit _ sent.store) hsent
    have hevents : turn.events g settled ++ ran.events =
        events ++ .delivered (delivery g.table prev read page) :: ran.events := by
      rw [Turn.events, hsent, List.append_assoc]
      rfl
    obtain ⟨turns, hturns⟩ := ih
    rw [Option.getD_some, ← hleaves] at hturns
    exact ⟨turn :: turns, hevents ▸ hturns.cons rfl rfl rfl (congrArg Ran.outcome hsent) hkey⟩

theorem queryRead_settings {g : Gateway σ} {key : String} {options : QueryOptions} {first : Read}
    (h : g.queryRead key options = .ok first) :
    first.index = options.index ∧ first.start = options.start ∧ first.limit = options.limit := by
  obtain ⟨_, -, h⟩ := exists_of_bind_ok h
  obtain ⟨_, -, h⟩ := exists_of_bind_ok h
  obtain ⟨_, -, h⟩ := exists_of_bind_ok h
  cases h
  exact ⟨rfl, rfl, rfl⟩

end Gateway

/-- A query that is accepted, on any store, however it answers. The first request begins at the
start as it was given, and each later one at the last key of the page before, with everything it
has. All pages say the same about where the read began: the key attributes of the start if there is
one, else those of the first item of the first page, and nothing if that page is empty. -/
theorem query_turns {g : Gateway σ} {key : String} {options : QueryOptions} {first : Read}
    (h : g.queryRead key options = .ok first) (s : σ) :
    first.start = options.start ∧ ∃ turns prev,
      prev = (match options.start with
        | some start => some (g.table.cursor options.index start)
        | none => ((turns.head?.bind Turn.page?).bind (·.items.head?)).map
          (g.table.cursor options.index)) ∧
      turns ≠ [] ∧
      g.TurnByTurn (g.store.horizon s + 1) prev first s turns (g.query key options s) ∧
      deliveries (g.query key options s).events = turns.filterMap (Turn.handedOut? g prev) := by
  obtain ⟨hindex, hstart, -⟩ := Gateway.queryRead_settings h
  have hquery : g.query key options s =
      g.pages (g.store.horizon s + 1)
        (options.start.map fun start => some (g.table.cursor options.index start)) first s := by
    rw [Gateway.query, h, Action.ofExcept_bind]
    rfl
  obtain ⟨turns, hturns⟩ := (g.paged_pages (g.store.horizon s + 1)
    (options.start.map fun start => some (g.table.cursor options.index start)) first s).exists_turns
  rw [hindex, ← hquery] at hturns
  refine ⟨hstart, turns, _, ?_, ?_, hturns, hturns.deliveries_eq⟩
  · cases options.start <;> rfl
  · rintro rfl
    have hends := hturns.ends
    split at hends
    · obtain ⟨last, hlast, -⟩ := hends
      cases hlast
    · obtain ⟨last, hlast, -⟩ := hends
      cases hlast
    · cases hends.1

theorem query_turns_until_failure :
    let table : Table := ⟨"orders", ⟨"user", some "day"⟩, .empty⟩
    let key (day : String) : Item :=
      (SortedMap.empty.insert "user" (.string "u")).insert "day" (.string day)
    let item (day : String) : Item := (key day).insert "paid" (.boolean true)
    let g : Gateway Script := ⟨Store.script, table, ⟨1, 5⟩, fun _ s => s⟩
    let options : QueryOptions := ⟨none, none, true, none, none⟩
    let first : Read := ⟨"orders", none, .query "#user = :1" true, none,
      ⟨SortedMap.empty.insert "#user" "user", SortedMap.empty.insert ":1" (.string "u")⟩, none,
      none⟩
    let script : Script := [.ok ⟨none, [], [], [], some (item "1")⟩, .error (.throttled "busy"),
      .ok ⟨none, [item "2"], [], [], some (item "2")⟩, .error (.resourceNotFound "gone")]
    g.queryRead "user = \"u\"" options = .ok first ∧
      (∃ turns, turns ≠ [] ∧
        g.TurnByTurn 5 none first script turns (g.query "user = \"u\"" options script) ∧
        turns.filterMap (Turn.handedOut? g none) =
          [⟨[], 0, none, some (key "1")⟩, ⟨[item "2"], 0, none, some (key "2")⟩]) ∧
      (g.query "user = \"u\"" options script).outcome = .failed (.resourceNotFound "gone") := by
  intro table key item g options first script
  have haccepted : g.queryRead "user = \"u\"" options = .ok first := by
    with_unfolding_all rfl
  have hpages : deliveries (g.query "user = \"u\"" options script).events =
      [⟨[], 0, none, some (key "1")⟩, ⟨[item "2"], 0, none, some (key "2")⟩] := by
    decide +kernel
  refine ⟨haccepted, ?_, by decide +kernel⟩
  obtain ⟨-, turns, prev, -, hne, hturns, hdeliveries⟩ := query_turns haccepted script
  rw [hpages] at hdeliveries
  obtain ⟨turn, -, hturn⟩ := List.mem_filterMap.mp (hdeliveries ▸ List.mem_cons_self)
  obtain ⟨page, -, hpage⟩ := Option.map_eq_some_iff.mp hturn
  obtain rfl : prev = none := congrArg Delivery.prev hpage
  exact ⟨turns, hne, hturns, hdeliveries.symm⟩

end KeyedTable
