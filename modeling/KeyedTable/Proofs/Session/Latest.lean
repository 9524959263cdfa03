import KeyedTable.Proofs.Gateway.Respects
import KeyedTable.Proofs.Session.Written

namespace KeyedTable

namespace WriteEntry

def latest (table : Table) (key : OrderKey) (writes : List WriteEntry) : Option Item :=
  (writes.reverse.find? fun entry => entry.place table = key).bind leaves

theorem get?_foldl_apply (table : Table) (items : SortedMap OrderKey Item)
    (writes : List WriteEntry) (key : OrderKey) :
    (writes.foldl (apply table) items).get? key =
      match writes.reverse.find? fun entry => entry.place table = key with
      | some entry => entry.leaves
      | none => items.get? key := by
  induction writes using List.reverseRecOn with
  | nil => rfl
  | append_singleton writes entry ih =>
    rw [List.foldl_append, List.foldl_cons, List.foldl_nil, get?_apply, List.reverse_append,
      List.reverse_singleton, List.singleton_append, List.find?_cons]
    by_cases h : entry.place table = key
    · simp [h]
    · simp [h, Ne.symm h, ih]

theorem get?_foldl_apply_empty (table : Table) (writes : List WriteEntry) (key : OrderKey) :
    (writes.foldl (apply table) .empty).get? key = latest table key writes := by
  rw [get?_foldl_apply, latest]
  cases writes.reverse.find? fun entry => entry.place table = key <;> rfl

end WriteEntry

namespace Memory

theorem items_new (table : Table) (pageSize : Option Nat) (items : List Item) :
    (new table pageSize items).items =
      (items.map WriteEntry.put).foldl (WriteEntry.apply table) .empty := by
  have hfold : ∀ (items : List Item) (m : SortedMap OrderKey Item),
      ((items.map WriteEntry.put).foldl (WriteEntry.apply table) m).entries =
        (items.map fun item => (table.primaryOrder item, item)).foldl
          (fun m e => Entries.insert e.1 e.2 m) m.entries := by
    intro items
    induction items with
    | nil => exact fun _ => rfl
    | cons item items ih => exact fun m => ih _
  exact SortedMap.ext (hfold items .empty).symm

theorem Keyed.nodup {m : Memory} (h : m.Keyed) :
    (m.items.values.map m.table.primaryOrder).Nodup := by
  have hkeys : m.items.values.map m.table.primaryOrder = m.items.keys := by
    rw [SortedMap.values, SortedMap.keys, List.map_map]
    exact List.map_congr_left fun e he => (h e he).symm
  rw [hkeys]
  exact m.items.nodup_keys

end Memory

namespace Operation

def entries (table : Table) : Operation → List WriteEntry
  | .put item _ => [.put item]
  | .batchWrite entries => entries.map (WriteEntry.reduce table)
  | .get _ | .batchGet _ | .query _ _ | .scan _ _ | .parallelScan _ _ _ => []

def Orders (pauses : Pauses) (m : Memory) (operation : Operation) (order : List WriteEntry) :
    Prop :=
  match operation with
  | .batchWrite entries => Gateway.Orders pauses m entries order
  | operation => order = operation.entries m.table

theorem Orders.of_unpaused {m : Memory} {operation : Operation} {order : List WriteEntry}
    (h : operation.Orders ⟨false, false⟩ m order) : order = operation.entries m.table := by
  cases operation with
  | batchWrite entries =>
    rw [h.2 (.inl ⟨rfl, nofun⟩)]
    exact (cut_batches (by decide) _).flatten
  | _ => exact h

def spoils (table : Table) : Operation → List OrderKey
  | .batchWrite entries => entries.map (WriteEntry.place table)
  | _ => []

def Harmless (operation : Operation) (outcome : Outcome Yield) : Prop :=
  operation.IsRead ∨ ∃ item condition, operation = .put item condition ∧ outcome.isDone = false

end Operation

def SessionStep.operation? : SessionStep → Option Operation
  | .inject _ => none
  | .perform operation _ _ => some operation

def history (table : Table) (retry : RetryPolicy) (pauses : Pauses) (steps : List SessionStep)
    (m : Memory) : List (Operation × Ran Memory Yield) :=
  (steps.filterMap SessionStep.operation?).zip (session table retry pauses steps m)

def written (table : Table) (history : List (Operation × Ran Memory Yield)) : List WriteEntry :=
  history.flatMap fun event => if event.2.outcome.isDone then event.1.entries table else []

/-- What the operations that succeed write in the course of a session. -/
inductive WrittenBy (table : Table) (retry : RetryPolicy) (pauses : Pauses) :
    List SessionStep → Memory → List WriteEntry → Prop
  | nothing {m} : WrittenBy table retry pauses [] m []
  | inject {injection steps m writes} :
      WrittenBy table retry pauses steps (m.inject injection) writes →
      WrittenBy table retry pauses (.inject injection :: steps) m writes
  | performed {operation receiver schedule steps m ran own writes} :
      ran = (Gateway.received table retry receiver).performTogether pauses schedule operation
        (m, []) →
      (if ran.outcome.isDone then operation.Orders pauses m own else own = []) →
      WrittenBy table retry pauses steps ran.store.1 writes →
      WrittenBy table retry pauses (.perform operation receiver schedule :: steps) m (own ++ writes)

def spoilt (table : Table) (history : List (Operation × Ran Memory Yield)) : List OrderKey :=
  history.flatMap fun event => if event.2.outcome.isDone then [] else event.1.spoils table

theorem spoilt_cons (table : Table) (operation : Operation) (ran : Ran Memory Yield)
    (history : List (Operation × Ran Memory Yield)) :
    spoilt table ((operation, ran) :: history) =
      (if ran.outcome.isDone then [] else operation.spoils table) ++ spoilt table history :=
  List.flatMap_cons

namespace Gateway

variable {table : Table} {retry : RetryPolicy} {receiver : Receiver} {s : Memory × List Delivery}

theorem respects_getTogether {σ : Type} (g : Gateway σ) (pauses : Pauses) (schedule : List Nat)
    (keys : List Item) :
    (g.getTogether pauses schedule keys).Respects (fun _ => True) Request.IsRead := by
  refine fun s _ => ⟨trivial, fun request refusal hmem => ?_⟩
  obtain ⟨parts, whole, h⟩ := g.exists_parted_getTogether s pauses schedule keys
  obtain ⟨result, -, hexchanged⟩ := h.exists_exchanged
    (fun _ _ hmem => h.getBlocks.emitted h.merges hmem) hmem
  obtain ⟨sent, rfl⟩ := h.getBlocks.exists_sent h.merges hexchanged
  exact trivial

theorem respects_scanTogether {σ : Type} (g : Gateway σ) (pauses : Pauses) (schedule : List Nat)
    (segments : Nat) (options : ScanOptions) (start : Option (List (Option Item))) :
    (g.scanTogether pauses schedule segments options start).Respects (fun _ => True)
      Request.IsRead := by
  refine fun s _ => ⟨trivial, fun request refusal hmem => ?_⟩
  cases hreads : g.scanReads segments options start with
  | error error =>
    rw [scanTogether_of_error _ s pauses schedule hreads] at hmem
    cases hmem
  | ok reads =>
    obtain ⟨parts, whole, h⟩ := g.exists_parted_scanTogether s pauses schedule hreads
    obtain ⟨result, -, hexchanged⟩ :=
      h.exists_exchanged (fun _ _ hmem => h.not_emitted_asked hmem) hmem
    obtain ⟨read, rfl⟩ := h.asked_read hexchanged
    exact trivial

theorem asked_isRead {σ : Type} (g : Gateway σ) (pauses : Pauses) (schedule : List Nat)
    {operation : Operation} (hop : operation.IsRead) (s : σ) :
    ∀ request refusal,
      .asked request refusal ∈ (g.performTogether pauses schedule operation s).events →
      request.IsRead := by
  have h : g.Upholds (fun _ => True) Request.IsRead :=
    ⟨fun _ _ _ _ => trivial, fun _ _ _ => trivial⟩
  have hreads : (g.performTogether pauses schedule operation).Respects (fun _ => True)
      Request.IsRead := by
    cases operation with
    | put | batchWrite => exact hop.elim
    | get key => exact (h.get (fun _ _ => trivial) key).bind fun _ => .pure _
    | batchGet keys => exact (g.respects_getTogether pauses schedule keys).bind fun _ => .pure _
    | query key options => exact (h.query fun _ _ _ _ => trivial).bind fun _ => .pure _
    | scan options start => exact (h.parallelScan fun _ _ _ _ _ _ => trivial).bind fun _ => .pure _
    | parallelScan segments options start =>
      exact (g.respects_scanTogether pauses schedule segments options start).bind fun _ => .pure _
  exact (hreads s trivial).2

theorem asked_put_of_not_done {σ : Type} (g : Gateway σ) {item : Item} {condition : Option String}
    {s : σ} (hfailed : (g.put item condition s).outcome.isDone = false) :
    ∀ request refusal, .asked request refusal ∈ (g.put item condition s).events →
      ∃ put, request = .put put ∧ refusal.isSome := by
  intro request refusal hmem
  unfold put at hfailed hmem
  cases hput : g.putRequest item condition with
  | error error =>
    rw [hput] at hmem
    cases hmem
  | ok put =>
    rw [hput, Action.ofExcept_bind] at hfailed hmem
    have htried := tried_submit g (.put put) s
    obtain ⟨result, houtcome⟩ := htried.ended
    cases result with
    | ok reply =>
      rw [Action.bind_of_done houtcome] at hfailed
      cases hfailed
    | error error =>
      rw [Action.bind_of_failed houtcome] at hmem
      exact ⟨put, htried.asked hmem, htried.refused_of_failed houtcome hmem⟩

theorem asked_of_harmless {σ : Type} (g : Gateway σ) {pauses : Pauses} {schedule : List Nat}
    {operation : Operation} {s : σ}
    (h : operation.Harmless (g.performTogether pauses schedule operation s).outcome) :
    ∀ request refusal,
      .asked request refusal ∈ (g.performTogether pauses schedule operation s).events →
      request.IsRead ∨ ∃ put, request = .put put ∧ refusal.isSome := by
  obtain hread | ⟨item, condition, rfl, hfailed⟩ := h
  · exact fun request refusal hmem =>
      .inl (g.asked_isRead pauses schedule hread s request refusal hmem)
  · cases hput : (g.put item condition s).outcome.isDone with
    | false =>
      obtain ⟨-, -, hevents⟩ :=
        Action.bind_of_not_done (fun _ => pure Yield.nothing) hput
      intro request refusal hmem
      exact .inr (g.asked_put_of_not_done hput request refusal (hevents ▸ hmem))
    | true =>
      obtain ⟨_, houtcome⟩ := Outcome.isDone_iff.mp hput
      have hdone : (g.performTogether pauses schedule (.put item condition) s).outcome =
          .done .nothing :=
        congrArg Ran.outcome (Action.bind_of_done houtcome)
      rw [hdone] at hfailed
      cases hfailed

variable {pauses : Pauses} {schedule : List Nat}

theorem items_eq_of_harmless {operation : Operation}
    (h : operation.Harmless
      ((received table retry receiver).performTogether pauses schedule operation s).outcome)
    {before after : List Event} {t : Memory × List Delivery}
    (hevents :
      ((received table retry receiver).performTogether pauses schedule operation s).events =
      before ++ after)
    (hcourse : (received table retry receiver).Course s before t) : t.1.items = s.1.items :=
  hcourse.items_eq fun request refusal hmem =>
    asked_of_harmless _ h request refusal (hevents ▸ List.mem_append_left _ hmem)

theorem exists_wrote_perform (retry : RetryPolicy) (receiver : Receiver) (pauses : Pauses)
    (schedule : List Nat) (operation : Operation) (hs : s.1.Keyed) (htable : s.1.table = table) :
    let ran := (received table retry receiver).performTogether pauses schedule operation s
    ∃ order, operation.Orders pauses s.1 order ∧
      Memory.Wrote order (ran.outcome.isDone = true) s.1 ran.store.1 := by
  intro ran
  by_cases hread : operation.IsRead
  · have hway := (performTogether_passed pauses schedule table retry receiver operation hs).way
    have hbecomes := hway.becomes (.refl hs)
    refine ⟨[], ?_, .nothing hbecomes.table
      (items_eq_of_harmless (.inl hread) (List.append_nil _).symm hway)⟩
    cases operation with
    | put | batchWrite => exact hread.elim
    | _ => exact rfl
  · cases operation with
    | put item condition =>
      exact ⟨_, rfl, (writes_put item condition).then_silent _ (fun _ _ => rfl) s⟩
    | batchWrite entries =>
      obtain ⟨order, horders, hwrote⟩ :=
        exists_wrote_writeTogether retry receiver pauses schedule entries htable
      have hwrote := Action.Writes.bind_at [] (fun _ => pure Yield.nothing) hwrote
        fun _ _ => .nothing rfl rfl
      rw [List.append_nil] at hwrote
      exact ⟨order, horders, hwrote⟩
    | _ => exact absurd trivial hread

theorem exists_get?_perform (retry : RetryPolicy) (receiver : Receiver) (pauses : Pauses)
    (schedule : List Nat) (operation : Operation) (hs : s.1.Keyed) (htable : s.1.table = table) :
    let ran := (received table retry receiver).performTogether pauses schedule operation s
    ∃ own, (if ran.outcome.isDone then operation.Orders pauses s.1 own else own = []) ∧
      ∀ key, key ∉ (if ran.outcome.isDone then [] else operation.spoils table) →
        ran.store.1.items.get? key =
          (own.foldl (WriteEntry.apply table) s.1.items).get? key := by
  intro ran
  obtain ⟨order, horders, hwrote⟩ :=
    exists_wrote_perform retry receiver pauses schedule operation hs htable
  cases hdone : ran.outcome.isDone with
  | true =>
    refine ⟨order, by rwa [if_pos rfl], fun key _ => ?_⟩
    rw [hwrote.applied hdone, htable]
  | false =>
    refine ⟨[], by rw [if_neg nofun], fun key hnamed => ?_⟩
    rw [if_neg nofun] at hnamed
    rw [List.foldl_nil]
    by_cases hharmless : operation.Harmless ran.outcome
    · have hway := (performTogether_passed pauses schedule table retry receiver operation hs).way
      rw [items_eq_of_harmless hharmless (List.append_nil _).symm hway]
    · cases operation with
      | batchWrite entries =>
        refine hwrote.elsewhere key fun entry hentry hplace => hnamed ?_
        have hmem := horders.1.perm.mem_iff.mp hentry
        rw [(cut_batches (by decide) _).flatten] at hmem
        obtain ⟨original, horiginal, rfl⟩ := List.mem_map.mp hmem
        rw [WriteEntry.place_reduce] at hplace
        exact List.mem_map.mpr ⟨original, horiginal, htable ▸ hplace⟩
      | put item condition => exact absurd (.inr ⟨item, condition, rfl, hdone⟩) hharmless
      | _ => exact absurd (.inl trivial) hharmless

theorem get?_of_found {key : Item} {item : Option Item} (htable : s.1.table = table)
    (h : ((received table retry receiver).perform (.get key) s).outcome = .done (.item item)) :
    item = s.1.items.get? (table.primaryOrder key) := by
  obtain ⟨n, hn, hitems, houtcome, -⟩ :=
    exists_answer_submit table retry receiver (.get table.name (table.keyOf key)) s
  obtain ⟨_, hget, hyield⟩ := Action.exists_of_bind_done h
  obtain ⟨found, hsubmit, hlast⟩ := Action.exists_of_bind_done hget
  cases hyield
  cases hlast
  have hanswer := Outcome.ofExcept_eq_done.mp (houtcome.symm.trans hsubmit)
  rw [Memory.answer_of_ok hanswer] at hanswer
  cases hanswer
  rw [← table.primaryOrder_keyOf, ← hitems, ← htable, ← hn]
  rfl

end Gateway

section Sessions

variable {table : Table} {retry : RetryPolicy} {pauses : Pauses} {steps : List SessionStep}
  {m : Memory}

theorem WrittenBy.of_unpaused {writes : List WriteEntry}
    (h : WrittenBy table retry ⟨false, false⟩ steps m writes) (hm : m.Keyed)
    (htable : m.table = table) :
    writes = written table (history table retry ⟨false, false⟩ steps m) := by
  induction h with
  | nothing => rfl
  | inject _ ih => exact ih (hm.inject _) htable
  | @performed operation receiver schedule steps m ran own writes hran hown _ ih =>
    have hbecomes : m.Becomes ran.store.1 := by
      rw [hran]
      exact (Memory.Becomes.refl hm).perform table receiver schedule operation
    have hrest := ih hbecomes.keyed (hbecomes.table.trans htable)
    have hentries : own = if ran.outcome.isDone then operation.entries table else [] := by
      split at hown
      next hdone => rw [if_pos hdone, hown.of_unpaused, htable]
      next hdone => rw [if_neg hdone, hown]
    rw [hrest, hentries, hran]
    rfl

theorem exists_writtenBy (retry : RetryPolicy) (pauses : Pauses) (steps : List SessionStep)
    (hm : m.Keyed) (htable : m.table = table) :
    ∃ writes, WrittenBy table retry pauses steps m writes ∧
      ∀ key, key ∉ spoilt table (history table retry pauses steps m) →
        (m.after table retry pauses steps).items.get? key =
          (writes.foldl (WriteEntry.apply table) m.items).get? key := by
  induction steps generalizing m with
  | nil => exact ⟨[], .nothing, fun _ _ => rfl⟩
  | cons step steps ih =>
    cases step with
    | inject injection =>
      obtain ⟨writes, hwritten, hafter⟩ := ih (hm.inject injection) htable
      exact ⟨writes, .inject hwritten, hafter⟩
    | perform operation receiver schedule =>
      let ran := (Gateway.received table retry receiver).performTogether pauses schedule operation
        (m, [])
      have hbecomes : m.Becomes ran.store.1 :=
        (Memory.Becomes.refl hm).perform table receiver schedule operation
      obtain ⟨own, hown, hnow⟩ := Gateway.exists_get?_perform (s := (m, [])) retry receiver pauses
        schedule operation hm htable
      obtain ⟨writes, hwritten, hafter⟩ := ih hbecomes.keyed (hbecomes.table.trans htable)
      refine ⟨own ++ writes, .performed rfl hown hwritten, fun key hspoilt => ?_⟩
      have hhistory : history table retry pauses (.perform operation receiver schedule :: steps) m =
          (operation, ⟨ran.outcome, ran.store.1, ran.events⟩) ::
            history table retry pauses steps ran.store.1 := rfl
      rw [hhistory, spoilt_cons, List.mem_append, not_or] at hspoilt
      calc
        _ = (ran.store.1.after table retry pauses steps).items.get? key := rfl
        _ = (writes.foldl (WriteEntry.apply table) ran.store.1.items).get? key :=
          hafter key hspoilt.2
        _ = _ := by
          rw [List.foldl_append, WriteEntry.get?_foldl_apply, WriteEntry.get?_foldl_apply,
            hnow key hspoilt.1]

end Sessions

/-- What an operation does to a table that has been written like this so far. -/
structure ActsOnMap (g : Gateway (Memory × List Delivery)) (writes : List WriteEntry)
    (spoilt : List OrderKey) (operation : Operation) (found : Memory)
    (ran : Ran (Memory × List Delivery) Yield) : Prop where
  ends : ran.outcome ≠ .unfinished
  keyed : ∀ before after, ran.events = before ++ after →
    ∃ t, g.Course (found, []) before t ∧ g.Course t after ran.store ∧
      (∀ e ∈ t.1.items.entries, e.1 = g.table.primaryOrder e.2) ∧
      (t.1.items.values.map g.table.primaryOrder).Nodup ∧
      (operation.Harmless ran.outcome → t.1.items = found.items)
  latest : ∀ key item, operation = .get key → ran.outcome = .done (.item item) →
    g.table.primaryOrder key ∉ spoilt →
    item = WriteEntry.latest g.table (g.table.primaryOrder key) writes

end KeyedTable
