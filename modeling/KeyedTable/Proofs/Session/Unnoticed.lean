import Mathlib.Data.List.Forall2
import KeyedTable.Proofs.Gateway.Together
import KeyedTable.Proofs.Session.Retried

namespace KeyedTable

def Injection.unthrottled (injection : Injection) : Injection :=
  { injection with throttling := none }

def Injection.Within (bound : Nat) (injection : Injection) : Prop :=
  ∀ count ∈ injection.throttling, count ≤ bound

namespace Receiver

def unthrottled (receiver : Receiver) : Receiver := fun pages => (receiver pages).unthrottled

def Within (bound : Nat) (receiver : Receiver) : Prop := ∀ pages, (receiver pages).Within bound

end Receiver

namespace SessionStep

def unthrottled : SessionStep → SessionStep
  | .inject injection => .inject injection.unthrottled
  | .perform operation receiver schedule => .perform operation receiver.unthrottled schedule

def Within (bound : Nat) : SessionStep → Prop
  | .inject injection => injection.Within bound
  | .perform _ receiver _ => receiver.Within bound

end SessionStep

def Operation.Single : Operation → Prop
  | .batchWrite entries => entries.length ≤ writeBatchSize
  | .batchGet keys => keys.length ≤ getBatchSize
  | .parallelScan segments _ start => (Gateway.segmentStarts segments start).length ≤ 1
  | .get _ | .put _ _ | .query _ _ | .scan _ _ => True

namespace Gateway

variable {σ : Type} {pauses : Pauses} {operation : Operation} {s : σ}

def Unbroken (g : Gateway σ) (pauses : Pauses) (operation : Operation) (s : σ) : Prop :=
  operation.Single ∨ pauses.answers = false ∧
    (pauses.waits = true →
      ∀ milliseconds, .waited milliseconds ∉ (g.perform operation s).events)

theorem performTogether_of_unbroken {g : Gateway σ} (h : g.Unbroken pauses operation s)
    (schedule : List Nat) :
    g.performTogether pauses schedule operation s = g.perform operation s := by
  obtain hsingle | ⟨hanswers, hwaits⟩ := h
  · cases operation with
    | get | put | query | scan => rfl
    | batchWrite entries =>
      rw [performTogether, g.writeTogether_alone pauses schedule hsingle]
      rfl
    | batchGet keys =>
      rw [performTogether, g.getTogether_alone pauses schedule hsingle]
      rfl
    | parallelScan segments options start =>
      rw [performTogether, g.scanTogether_alone pauses schedule hsingle]
      rfl
  · obtain ⟨answers, waits⟩ := pauses
    obtain rfl : answers = false := hanswers
    have hcalm {α : Type} {action : Action σ α} {next : α → Action σ Yield}
        (h : waits = true →
          ∀ milliseconds, .waited milliseconds ∉ ((action >>= next) s).events)
        (hwaits : waits = true) (milliseconds : Nat) :
        .waited milliseconds ∉ (action s).events :=
      fun hmem => h hwaits milliseconds (Action.events_subset_bind _ _ s hmem)
    cases operation with
    | get | put | query | scan => rfl
    | batchWrite entries =>
      exact Action.bind_congr (writeTogether_of_no_wait schedule (hcalm hwaits)) _
    | batchGet keys =>
      exact Action.bind_congr (getTogether_of_no_wait schedule (hcalm hwaits)) _
    | parallelScan segments options start =>
      exact Action.bind_congr (scanTogether_of_no_wait schedule (hcalm hwaits)) _

end Gateway

/-- No operation of the session is broken up by a pause. -/
def UnbrokenSession (table : Table) (retry : RetryPolicy) (pauses : Pauses) :
    List SessionStep → Memory → Prop
  | [], _ => True
  | .inject injection :: steps, m => UnbrokenSession table retry pauses steps (m.inject injection)
  | .perform operation receiver schedule :: steps, m =>
    let g := Gateway.received table retry receiver
    g.Unbroken pauses operation (m, []) ∧
      UnbrokenSession table retry pauses steps
        (g.performTogether pauses schedule operation (m, [])).store.1

namespace Hindered

variable {retry : RetryPolicy} {s t : Memory × List Delivery}

theorem horizon (h : Hindered retry s t) (table : Table) (receiver receiver' : Receiver) :
    (Gateway.received table retry receiver).store.horizon s =
      (Gateway.received table retry receiver').store.horizon t := by
  cases h
  rfl

theorem inject {injection : Injection} (h : Hindered retry s t)
    (hinjection : injection.Within retry.maxRetries) (page : List Delivery → List Delivery) :
    Hindered retry (s.1.inject injection, page s.2)
      (t.1.inject injection.unthrottled, page t.2) := by
  cases h with
  | @intro n pages throttling throttled hcalm hthrottling =>
    have hbound : injection.throttling.getD throttling ≤ retry.maxRetries := by
      cases hcount : injection.throttling with
      | none => exact hthrottling
      | some count => exact hinjection count hcount
    exact .intro (n := n.inject injection.unthrottled) throttled hcalm hbound

theorem visit {receiver : Receiver} (h : Hindered retry s t)
    (hreceiver : receiver.Within retry.maxRetries) (page : Delivery) :
    Hindered retry (receiver.visit page s) (receiver.unthrottled.visit page t) := by
  cases h with
  | intro throttled hcalm hthrottling =>
    exact inject (.intro throttled hcalm hthrottling) (hreceiver _) (· ++ [page])

theorem restart (h : Hindered retry s t) : Hindered retry (s.1, []) (t.1, []) := by
  cases h with
  | intro throttled hcalm hthrottling => exact .intro throttled hcalm hthrottling

end Hindered

namespace Gateway

variable {table : Table} {retry : RetryPolicy} {receiver receiver' : Receiver}
  {s t : Memory × List Delivery}

theorem alike_deliver (hreceiver : receiver.Within retry.maxRetries) (page : Delivery) :
    Alike retry (Action.deliver receiver.visit page)
      (Action.deliver receiver.unthrottled.visit page) :=
  fun _ _ hst => ⟨⟨.ok (), rfl, rfl⟩, hst.visit hreceiver page, .delivered .nil⟩

theorem alike_writeRounds {rounds : Nat} {entries : List WriteEntry}
    (hrounds : entries.length ≤ rounds) :
    Alike retry ((received table retry receiver).writeRounds rounds entries)
      ((received table retry receiver').writeRounds rounds entries) := by
  induction rounds generalizing entries with
  | zero =>
    obtain rfl := List.eq_nil_of_length_eq_zero (Nat.le_zero.mp hrounds)
    exact Alike.pure ()
  | succ rounds ih =>
    cases entries with
    | nil => exact Alike.pure ()
    | cons entry entries =>
      intro s t hst
      refine agrees_submit_bind hst fun unprocessed s' t' hst' hserve => ?_
      have hshorter := Memory.length_unwritten_lt (List.cons_ne_nil entry entries)
        (congrArg Prod.fst hserve)
      have hfewer : unprocessed.length ≤ rounds := by
        rw [List.length_cons] at hshorter hrounds
        omega
      exact ih hfewer s' t' hst'

theorem alike_getRounds {rounds : Nat} {keys : List Item} (hrounds : keys.length ≤ rounds) :
    Alike retry ((received table retry receiver).getRounds rounds keys)
      ((received table retry receiver').getRounds rounds keys) := by
  induction rounds generalizing keys with
  | zero =>
    obtain rfl := List.eq_nil_of_length_eq_zero (Nat.le_zero.mp hrounds)
    exact Alike.pure []
  | succ rounds ih =>
    cases keys with
    | nil => exact Alike.pure []
    | cons key keys =>
      intro s t hst
      refine agrees_submit_bind hst fun found s' t' hst' hserve => ?_
      have hshorter := Memory.length_unfound_lt (List.cons_ne_nil key keys)
        (congrArg Prod.fst hserve)
      have hfewer : found.unprocessed.length ≤ rounds := by
        rw [List.length_cons] at hshorter hrounds
        omega
      exact (ih hfewer).bind (fun items => Alike.pure (found.items ++ items)) s' t' hst'

theorem agrees_pages (hreceiver : receiver.Within retry.maxRetries) {rounds : Nat}
    {prev : Option (Option Item)} {read : Read} (hst : Hindered retry s t)
    (hrounds : t.1.ahead read < rounds) :
    Agrees retry ((received table retry receiver).pages rounds prev read s)
      ((received table retry receiver.unthrottled).pages rounds prev read t) := by
  induction rounds generalizing prev read s t with
  | zero => exact absurd hrounds (Nat.not_lt_zero _)
  | succ rounds ih =>
    refine agrees_submit_bind hst fun page s' t' hst' hserve => ?_
    have hread : t.1.read read = .ok page := congrArg Prod.fst hserve
    have hstore : t.1.count (.read read) = t'.1 := congrArg Prod.snd hserve
    refine (alike_deliver hreceiver _ s' t' hst').bind fun _ _ => ?_
    have hvisited := hst'.visit hreceiver
    cases hkey : page.lastKey with
    | none => exact Alike.pure () _ _ (hvisited _)
    | some key =>
      cases hcharge : charge read.limit page.items.length with
      | none => exact Alike.pure () _ _ (hvisited _)
      | some limit =>
        -- The receiver leaves the items alone, and the page leaves fewer of them ahead.
        have hahead : t'.1.ahead { read with start := some key, limit } < t.1.ahead read := by
          rw [← hstore]
          exact Memory.ahead_lt hread hkey limit
        exact ih (hvisited _) (Nat.lt_of_lt_of_le hahead (Nat.le_of_lt_succ hrounds))

theorem alike_readFrom (hreceiver : receiver.Within retry.maxRetries)
    (prev : Option (Option Item)) (read : Read) :
    Alike retry ((received table retry receiver).readFrom prev read)
      ((received table retry receiver.unthrottled).readFrom prev read) := by
  intro s t hst
  have hrounds := Nat.lt_succ_of_le (t.1.ahead_le read)
  unfold readFrom
  rw [hst.horizon table receiver receiver.unthrottled]
  exact agrees_pages hreceiver hst hrounds

theorem alike_writeOne (entries : List WriteEntry) :
    Alike retry ((received table retry receiver).writeOne entries)
      ((received table retry receiver').writeOne entries) := by
  intro s t hst
  unfold writeOne
  rw [hst.horizon table receiver receiver']
  exact alike_writeRounds (Nat.le_add_left _ _) s t hst

theorem alike_getOne (keys : List Item) :
    Alike retry ((received table retry receiver).getOne keys)
      ((received table retry receiver').getOne keys) := by
  intro s t hst
  unfold getOne
  rw [hst.horizon table receiver receiver']
  exact alike_getRounds (Nat.le_add_left _ _) s t hst

theorem alike_get (key : Item) :
    Alike retry ((received table retry receiver).get key)
      ((received table retry receiver').get key) :=
  (alike_submit _).bind fun item => (Alike.log _).bind fun _ => Alike.pure item

theorem alike_put (item : Item) (condition : Option String) :
    Alike retry ((received table retry receiver).put item condition)
      ((received table retry receiver').put item condition) :=
  (Alike.ofExcept _).bind fun put => (alike_submit (.put put)).bind fun _ => Alike.log _

theorem alike_batchWrite (entries : List WriteEntry) :
    Alike retry ((received table retry receiver).batchWrite entries)
      ((received table retry receiver').batchWrite entries) :=
  (Alike.all fun block _ => alike_writeOne block).bind fun _ => Alike.log _

theorem alike_batchGet (keys : List Item) :
    Alike retry ((received table retry receiver).batchGet keys)
      ((received table retry receiver').batchGet keys) :=
  (Alike.all fun block _ => alike_getOne block).bind fun found =>
    (Alike.log _).bind fun _ => Alike.pure found.flatten

theorem alike_query (hreceiver : receiver.Within retry.maxRetries) (key : String)
    (options : QueryOptions) :
    Alike retry ((received table retry receiver).query key options)
      ((received table retry receiver.unthrottled).query key options) :=
  (Alike.ofExcept _).bind fun read => alike_readFrom hreceiver _ read

theorem alike_parallelScan (hreceiver : receiver.Within retry.maxRetries) (segments : Nat)
    (options : ScanOptions) (start : Option (List (Option Item))) :
    Alike retry ((received table retry receiver).parallelScan segments options start)
      ((received table retry receiver.unthrottled).parallelScan segments options start) :=
  (Alike.ofExcept _).bind fun _ =>
    (Alike.all fun read _ => alike_readFrom hreceiver (some none) read).bind fun _ => Alike.pure ()

theorem alike_perform (table : Table) (hreceiver : receiver.Within retry.maxRetries)
    (operation : Operation) :
    Alike retry ((received table retry receiver).perform operation)
      ((received table retry receiver.unthrottled).perform operation) := by
  cases operation with
  | get key => exact (alike_get key).bind fun item => Alike.pure (Yield.item item)
  | put item condition => exact (alike_put item condition).bind fun _ => Alike.pure Yield.nothing
  | batchWrite entries => exact (alike_batchWrite entries).bind fun _ => Alike.pure Yield.nothing
  | batchGet keys => exact (alike_batchGet keys).bind fun items => Alike.pure (Yield.items items)
  | query key options =>
    exact (alike_query hreceiver key options).bind fun _ => Alike.pure Yield.nothing
  | scan options start =>
    exact (alike_parallelScan hreceiver 1 options _).bind fun _ => Alike.pure Yield.nothing
  | parallelScan segments options start =>
    exact (alike_parallelScan hreceiver segments options start).bind fun _ =>
      Alike.pure Yield.nothing

end Gateway

/-- Two runs of an operation that differ in nothing but throttled attempts and the wait after each
of them. -/
structure Unnoticed (retry : RetryPolicy) (ran calm : Ran Memory Yield) : Prop where
  outcome : ∃ result : Except Error Yield,
    ran.outcome = .ofExcept result ∧ calm.outcome = .ofExcept result
  pages : deliveries ran.events = deliveries calm.events
  items : ran.store.items = calm.store.items
  tally : ran.store.tally = { calm.store.tally with throttled := ran.store.tally.throttled }
  answered : answered ran.events = answered calm.events
  waited : waits ran.events = List.replicate (ran.events.countP Event.isThrottled) retry.delay
  unthrottled : calm.events.countP Event.isThrottled = 0 ∧ waits calm.events = []
  retried : Retried retry ran.events calm.events

theorem Agrees.unnoticed {retry : RetryPolicy} {ran calm : Ran (Memory × List Delivery) Yield}
    (h : Agrees retry ran calm) :
    Unnoticed retry ⟨ran.outcome, ran.store.1, ran.events⟩
      ⟨calm.outcome, calm.store.1, calm.events⟩ := by
  obtain ⟨houtcome, hstore, hevents⟩ := h
  generalize hs : ran.store = s at hstore
  generalize ht : calm.store = t at hstore
  cases hstore with
  | intro throttled hcalm hthrottling =>
    exact ⟨houtcome, hevents.deliveries_eq, rfl, rfl, hevents.answered_eq, hevents.waits_eq,
      hevents.calm, hevents⟩

theorem Agrees.unbroken {table : Table} {retry : RetryPolicy} {receiver receiver' : Receiver}
    {pauses : Pauses} {operation : Operation} {s t : Memory × List Delivery}
    (h : Agrees retry ((Gateway.received table retry receiver).perform operation s)
      ((Gateway.received table retry receiver').perform operation t))
    (hs : (Gateway.received table retry receiver).Unbroken pauses operation s) :
    (Gateway.received table retry receiver').Unbroken pauses operation t :=
  hs.imp id fun ⟨hanswers, _⟩ => ⟨hanswers, fun _ => not_waited h.events.calm.2⟩

theorem unnoticed_session (table : Table) {retry : RetryPolicy} {pauses : Pauses}
    {steps : List SessionStep} (hsteps : ∀ step ∈ steps, step.Within retry.maxRetries)
    {m n : Memory} (hunbroken : UnbrokenSession table retry pauses steps m)
    (hmn : Hindered retry (m, []) (n, [])) :
    List.Forall₂ (Unnoticed retry) (session table retry pauses steps m)
      (session table retry pauses (steps.map SessionStep.unthrottled) n) := by
  induction steps generalizing m n with
  | nil => exact .nil
  | cons step steps ih =>
    obtain ⟨hstep, hothers⟩ := List.forall_mem_cons.mp hsteps
    cases step with
    | inject injection => exact ih hothers hunbroken (hmn.inject hstep id)
    | perform operation receiver schedule =>
      obtain ⟨hhere, hlater⟩ := hunbroken
      have hran := Gateway.alike_perform table hstep operation _ _ hmn
      have hthere := hran.unbroken hhere
      rw [← Gateway.performTogether_of_unbroken hhere schedule,
        ← Gateway.performTogether_of_unbroken hthere schedule] at hran
      exact .cons hran.unnoticed (ih hothers hlater hran.store.restart)

-- The second segment overtakes the first one where that one pauses to wait.
example :
    let table : Table := ⟨"orders", ⟨"user", none⟩, .empty⟩
    let item (user : String) : Item := SortedMap.empty.insert "user" (.string user)
    let m := (Memory.new table none [item "u", item "v"]).inject ⟨none, some 1, none⟩
    let pages (waits : Bool) :=
      (session table .standard ⟨false, waits⟩
        [.perform (.parallelScan 2 ⟨none, none, none⟩ none) (fun _ => ⟨none, none, none⟩) []] m).map
        fun ran => (deliveries ran.events).map Delivery.items
    pages false = [[[item "v"], [item "u"]]] ∧ pages true = [[[item "u"], [item "v"]]] := by
  decide +kernel

end KeyedTable
