import KeyedTable.Proofs.Batch.Rounds
import KeyedTable.Proofs.Gateway.Passing
import KeyedTable.Proofs.Memory.Changes
import KeyedTable.Proofs.Reading.PageByPage

namespace KeyedTable

variable {σ : Type}

namespace Gateway

/-- The way from one store to another: what each answer and each receiver of a page leaves. -/
inductive Course (g : Gateway σ) : σ → List Event → σ → Prop
  | nothing {s} : Course g s [] s
  | asked {s t u events request result} : g.store.answer request s = (result, t) →
      Course g t events u → Course g s (.asked request (refusal? result) :: events) u
  | waited {s u events milliseconds} : Course g s events u →
      Course g s (.waited milliseconds :: events) u
  | logged {s u events notice} : Course g s events u → Course g s (.logged notice :: events) u
  | delivered {s u events page} : Course g (g.visit page s) events u →
      Course g s (.delivered page :: events) u

variable {g : Gateway σ} {s t u : σ}

theorem Course.append {before after : List Event} (h : g.Course s before t)
    (hrest : g.Course t after u) : g.Course s (before ++ after) u := by
  induction h with
  | nothing => exact hrest
  | asked hanswer _ ih => exact .asked hanswer (ih hrest)
  | waited _ ih => exact .waited (ih hrest)
  | logged _ ih => exact .logged (ih hrest)
  | delivered _ ih => exact .delivered (ih hrest)

theorem passage_course (g : Gateway σ) : Passage g.Course where
  nothing _ := .nothing
  logged _ _ := .logged .nothing
  append := Course.append

theorem Course.exists_between {before after : List Event}
    (h : g.Course s (before ++ after) u) : ∃ t, g.Course s before t ∧ g.Course t after u := by
  induction before generalizing s with
  | nil => exact ⟨s, .nothing, h⟩
  | cons event before ih =>
    cases h with
    | asked hanswer hrest =>
      obtain ⟨t, hbefore, hafter⟩ := ih hrest
      exact ⟨t, .asked hanswer hbefore, hafter⟩
    | waited hrest =>
      obtain ⟨t, hbefore, hafter⟩ := ih hrest
      exact ⟨t, .waited hbefore, hafter⟩
    | logged hrest =>
      obtain ⟨t, hbefore, hafter⟩ := ih hrest
      exact ⟨t, .logged hbefore, hafter⟩
    | delivered hrest =>
      obtain ⟨t, hbefore, hafter⟩ := ih hrest
      exact ⟨t, .delivered hbefore, hafter⟩

theorem Course.keeps {I : σ → Prop} {events : List Event} (h : g.Course s events u)
    (hanswer : ∀ request refusal, .asked request refusal ∈ events → ∀ s result t,
      g.store.answer request s = (result, t) → refusal? result = refusal → I s → I t)
    (hvisit : ∀ page s, I s → I (g.visit page s)) (hs : I s) : I u := by
  induction h with
  | nothing => exact hs
  | asked hanswered _ ih =>
    exact ih (fun request refusal hmem => hanswer request refusal (List.mem_cons_of_mem _ hmem))
      (hanswer _ _ List.mem_cons_self _ _ _ hanswered rfl hs)
  | waited _ ih =>
    exact ih (fun request refusal hmem => hanswer request refusal (List.mem_cons_of_mem _ hmem)) hs
  | logged _ ih =>
    exact ih (fun request refusal hmem => hanswer request refusal (List.mem_cons_of_mem _ hmem)) hs
  | delivered _ ih =>
    exact ih (fun request refusal hmem => hanswer request refusal (List.mem_cons_of_mem _ hmem))
      (hvisit _ _ hs)

theorem Follows.course {whole : List Happening} (h : g.Follows s whole t)
    (hasked : ∀ request refusal, .emitted (.asked request refusal) ∉ whole) :
    g.Course s (whole.map Happening.event) t := by
  induction h with
  | nothing => exact .nothing
  | exchanged hanswer _ ih =>
    exact .asked hanswer (ih fun request refusal hmem => hasked request refusal (.tail _ hmem))
  | @emitted s _ event whole _ ih =>
    have hrest := ih fun request refusal hmem => hasked request refusal (.tail _ hmem)
    cases event with
    | asked request refusal => exact absurd (.head _) (hasked request refusal)
    | waited milliseconds => exact .waited hrest
    | logged notice => exact .logged hrest
    | delivered page => exact .delivered hrest

theorem Parted.course {α β : Type} {starts : List (σ → Task α)} {gather : List α → β}
    {ran : Ran σ β} {parts : List (Part α)} {whole : List Happening}
    (h : g.Parted s starts gather ran parts whole)
    (hasked : ∀ request refusal, .emitted (.asked request refusal) ∉ whole) :
    g.Course s ran.events ran.store := by
  obtain ⟨notices, hevents⟩ := h.events
  have hlogged (notices : List Notice) : g.Course ran.store (notices.map .logged) ran.store := by
    induction notices with
    | nil => exact .nothing
    | cons notice notices ih => exact .logged ih
  rw [hevents]
  exact (h.follows.course hasked).append (hlogged notices)

end Gateway

namespace Tried

variable {g : Gateway σ} {request : Request} {used : Nat} {s : σ} {ran : Ran σ request.Reply}

theorem course (h : Tried g.store g.retry request used s ran) :
    g.Course s ran.events ran.store := by
  induction h with
  | answered hanswer => exact .asked hanswer .nothing
  | refused hanswer _ => exact .asked hanswer .nothing
  | again _ hanswer _ ih => exact .asked hanswer (.logged (.waited ih))

theorem refused_of_failed {store : Store σ} {policy : RetryPolicy} {error : Error}
    (h : Tried store policy request used s ran) (hfailed : ran.outcome = .failed error)
    {other : Request} {refusal : Option Error} (hmem : .asked other refusal ∈ ran.events) :
    refusal.isSome := by
  induction h with
  | answered => cases hfailed
  | refused => cases List.mem_singleton.mp hmem; rfl
  | again _ _ _ ih =>
    simp only [List.mem_cons, Event.asked.injEq, reduceCtorEq, false_or] at hmem
    exact hmem.elim (fun h => h.2 ▸ rfl) (ih hfailed)

end Tried

def Operation.IsRead : Operation → Prop
  | .get _ | .batchGet _ | .query _ _ | .scan _ _ | .parallelScan _ _ _ => True
  | .put _ _ | .batchWrite _ => False

namespace Memory

variable {m n : Memory}

theorem Stays.ahead (h : m.Stays n) (read : Read) : n.ahead read = m.ahead read := by
  obtain ⟨table, pageSize, items⟩ := m
  obtain ⟨table', pageSize', items'⟩ := n
  obtain rfl : table' = table := h.table
  obtain rfl : pageSize' = pageSize := h.pageSize
  obtain rfl : items' = items := h.items
  rfl

theorem Stays.inject (h : m.Stays n) (injection : Injection) : m.Stays (n.inject injection) :=
  ⟨h.toBecomes.inject injection, h.items⟩

end Memory

namespace Gateway

variable {table : Table} {retry : RetryPolicy} {receiver : Receiver} {s : Memory × List Delivery}

theorem exists_answer_submit (table : Table) (retry : RetryPolicy) (receiver : Receiver)
    (request : Request) (s : Memory × List Delivery) :
    ∃ n : Memory, n.table = s.1.table ∧ n.items = s.1.items ∧
      ((received table retry receiver).submit request s).outcome =
        .ofExcept (n.answer request).1 ∧
      ((received table retry receiver).submit request s).store.1 = (n.answer request).2 := by
  obtain ⟨u, ⟨htable, hitems⟩, houtcome, hstore⟩ :=
    (tried_submit (received table retry receiver) request s).exists_last
      (I := fun u => u.1.table = s.1.table ∧ u.1.items = s.1.items)
      (fun u detail t hu hanswer => by
        obtain ⟨hresult, rfl⟩ := Prod.mk.inj hanswer
        obtain ⟨htable, hitems⟩ := Memory.settings_of_throttled (Prod.ext hresult rfl)
        exact ⟨htable.trans hu.1, hitems.trans hu.2⟩)
      ⟨rfl, rfl⟩
  exact ⟨u.1, htable, hitems, houtcome, congrArg Prod.fst hstore⟩

theorem submit_read_of_done {read : Read} {page : Page} {t : Memory × List Delivery}
    {events : List Event} (hs : s.1.Keyed)
    (h : (received table retry receiver).submit (.read read) s = ⟨.done page, t, events⟩) :
    s.1.Stays t.1 ∧ s.1.read read = .ok page := by
  obtain ⟨u, hu, houtcome, hstore⟩ :=
    (tried_submit (received table retry receiver) (.read read) s).exists_last
      (I := fun u => s.1.Stays u.1)
      (fun u detail t hu hanswer => by
        obtain ⟨-, rfl⟩ := Prod.mk.inj hanswer
        exact hu.answer read)
      (Memory.Stays.refl hs)
  rw [h] at houtcome hstore
  obtain rfl : t = _ := hstore
  exact ⟨hu.answer read, hu.read_of_ok (Outcome.ofExcept_eq_done.mp houtcome.symm)⟩

theorem submit_passes (table : Table) (retry : RetryPolicy) (receiver : Receiver)
    (request : Request) :
    ((received table retry receiver).submit request).Passes (fun s => s.1.Keyed)
      (received table retry receiver).Course := by
  intro s hs
  have htried := tried_submit (received table retry receiver) request s
  obtain ⟨u, hu, houtcome, hstore⟩ := htried.exists_last (I := fun u => u.1.Keyed)
    (fun u detail t hu hanswer => by
      obtain ⟨-, rfl⟩ := Prod.mk.inj hanswer
      exact hu.answer request) hs
  refine ⟨?_, ?_, htried.course⟩
  · rw [houtcome]
    exact Outcome.ofExcept_ne_unfinished
  · rw [hstore]
    exact hu.answer request

theorem readFrom_passes (table : Table) (retry : RetryPolicy) (receiver : Receiver)
    (prev : Option (Option Item)) (read : Read) :
    ((received table retry receiver).readFrom prev read).Passes (fun s => s.1.Keyed)
      (received table retry receiver).Course := by
  intro s hs
  have hpassage := passage_course (received table retry receiver)
  refine (paged_pages (received table retry receiver) _ prev read s).passes hpassage
    (submit_passes table retry receiver) (fun read s => s.1.ahead read) ?_ hs
    (Nat.lt_succ_of_le (s.1.ahead_le read))
  intro read s page t events prev hs hsubmit handedOut
  obtain ⟨hstays, hpage⟩ := submit_read_of_done hs hsubmit
  have hsent := (submit_passes table retry receiver (.read read) s hs).way
  rw [hsubmit] at hsent
  -- The receiver leaves the items alone, and the page leaves fewer of them ahead.
  have hvisited := hstays.inject (receiver (t.2 ++ [handedOut]))
  refine ⟨hvisited.keyed, hpassage.append hsent (.delivered .nothing), fun key limit hkey => ?_⟩
  exact (hvisited.ahead _).trans_lt (Memory.ahead_lt hpage hkey limit)

theorem submit_batch_of_done {request : Request} {reply : request.Reply}
    (h : ((received table retry receiver).submit request s).outcome = .done reply) :
    ∃ n : Memory, (n.serve request).1 = .ok reply := by
  obtain ⟨n, -, -, houtcome, -⟩ := exists_answer_submit table retry receiver request s
  have hreply := Outcome.ofExcept_eq_done.mp (houtcome.symm.trans h)
  rw [Memory.answer_of_ok hreply] at hreply
  exact ⟨_, hreply⟩

theorem writeOne_passes (table : Table) (retry : RetryPolicy) (receiver : Receiver)
    (entries : List WriteEntry) :
    ((received table retry receiver).writeOne entries).Passes (fun s => s.1.Keyed)
      (received table retry receiver).Course := by
  intro s hs
  refine writeRounds_passed (passage_course _) (submit_passes table retry receiver)
    (fun entries _ => entries.length - 1) ?_ hs ?_
  · intro entries s unprocessed hne hdone hleft
    obtain ⟨n, hserved⟩ := submit_batch_of_done hdone
    have hshorter := Memory.length_unwritten_lt hne hserved
    have := List.length_pos_iff.mpr hleft
    omega
  · intro hne
    have := List.length_pos_iff.mpr hne
    omega

theorem getOne_passes (table : Table) (retry : RetryPolicy) (receiver : Receiver)
    (keys : List Item) :
    ((received table retry receiver).getOne keys).Passes (fun s => s.1.Keyed)
      (received table retry receiver).Course := by
  intro s hs
  refine getRounds_passed (passage_course _) (submit_passes table retry receiver)
    (fun keys _ => keys.length - 1) ?_ hs ?_
  · intro keys s found hne hdone hleft
    obtain ⟨n, hserved⟩ := submit_batch_of_done hdone
    have hshorter := Memory.length_unfound_lt hne hserved
    have := List.length_pos_iff.mpr hleft
    omega
  · intro hne
    have := List.length_pos_iff.mpr hne
    omega

theorem passes_received (table : Table) (retry : RetryPolicy) (receiver : Receiver) :
    (received table retry receiver).Passes (fun s => s.1.Keyed)
      (received table retry receiver).Course where
  submit := submit_passes table retry receiver
  readFrom := readFrom_passes table retry receiver
  writeOne := writeOne_passes table retry receiver
  getOne := getOne_passes table retry receiver

theorem Course.becomes {m : Memory} {events : List Event} {t : Memory × List Delivery}
    (h : (received table retry receiver).Course s events t) (hs : m.Becomes s.1) :
    m.Becomes t.1 :=
  h.keeps (I := fun s => m.Becomes s.1)
    (fun request _ _ s _ _ hanswer _ hbecomes => by
      obtain ⟨-, rfl⟩ := Prod.mk.inj hanswer
      exact hbecomes.answer request)
    (fun _ _ hbecomes => hbecomes.inject _) hs

theorem Parted.passed {α β : Type} {starts : List (Memory × List Delivery → Task α)}
    {gather : List α → β} {ran : Ran (Memory × List Delivery) β} {parts : List (Part α)}
    {whole : List Happening}
    (h : (received table retry receiver).Parted s starts gather ran parts whole) (hs : s.1.Keyed)
    (hends : ∀ part ∈ parts, part.outcome ≠ .unfinished)
    (hasked : ∀ request refusal, .emitted (.asked request refusal) ∉ whole) :
    ran.Passed (fun s => s.1.Keyed) (received table retry receiver).Course s := by
  have hcourse := h.course hasked
  exact ⟨h.ne_unfinished hends, (hcourse.becomes (.refl hs)).keyed, hcourse⟩

section Together

variable (pauses : Pauses) (schedule : List Nat)

theorem writeTogether_passed (entries : List WriteEntry) (hs : s.1.Keyed) :
    ((received table retry receiver).writeTogether pauses schedule entries s).Passed
      (fun s => s.1.Keyed) (received table retry receiver).Course s := by
  obtain ⟨parts, whole, h⟩ :=
    (received table retry receiver).exists_parted_writeTogether s pauses schedule entries
  have hleaves : (Batching.writes table.name).Leaves whole := fun _ _ hmem hne => by
    obtain ⟨u, hanswer⟩ := h.follows.answered hmem
    exact Memory.unwritten_of_answer (m := u.1) hanswer hne
  exact h.passed hs (h.writeBlocks.ne_unfinished h.merges hleaves) fun _ _ hmem =>
    h.writeBlocks.emitted h.merges hmem

theorem getTogether_passed (keys : List Item) (hs : s.1.Keyed) :
    ((received table retry receiver).getTogether pauses schedule keys s).Passed
      (fun s => s.1.Keyed) (received table retry receiver).Course s := by
  obtain ⟨parts, whole, h⟩ :=
    (received table retry receiver).exists_parted_getTogether s pauses schedule keys
  have hleaves : (Batching.gets table.name).Leaves whole := fun _ _ hmem hne => by
    obtain ⟨u, hanswer⟩ := h.follows.answered hmem
    exact Memory.unfound_of_answer (m := u.1) hanswer hne
  exact h.passed hs (h.getBlocks.ne_unfinished h.merges hleaves) fun _ _ hmem =>
    h.getBlocks.emitted h.merges hmem

theorem scanTogether_passed (segments : Nat) (options : ScanOptions)
    (start : Option (List (Option Item))) (hs : s.1.Keyed) :
    ((received table retry receiver).scanTogether pauses schedule segments options start s).Passed
      (fun s => s.1.Keyed) (received table retry receiver).Course s := by
  cases hreads : (received table retry receiver).scanReads segments options start with
  | error error =>
    rw [scanTogether_of_error _ s pauses schedule hreads]
    exact ⟨by simp, hs, .nothing⟩
  | ok reads =>
    obtain ⟨parts, whole, h⟩ :=
      (received table retry receiver).exists_parted_scanTogether s pauses schedule hreads
    have hread (read : Read) (u : Memory × List Delivery) (hu : s.1.Stays u.1) :
        s.1.Stays (u.1.answer (.read read)).2 := hu.answer read
    have hvisit (page : Delivery) (u : Memory × List Delivery) (hu : s.1.Stays u.1) :
        s.1.Stays (receiver.visit page u).1 := hu.inject _
    have hasked (request : Request) (result : Except Error request.Reply)
        (hmem : .exchanged request result ∈ whole) : ∃ read, request = .read read :=
      h.asked_read hmem
    obtain ⟨-, hanswered⟩ := h.follows.keeps_reads (I := fun u => s.1.Stays u.1) hasked hread hvisit
      (Memory.Stays.refl hs)
    refine h.passed hs (fun part hpart => ?_) fun request refusal hmem => h.not_emitted_asked hmem
    obtain ⟨read, -, u, hu, hpages⟩ := exists_of_forall₂_right h.pageByPage hpart
    have hstays := hu.reached.keeps_reads (I := fun u => s.1.Stays u.1) hasked hread hvisit
      (Memory.Stays.refl hs)
    have hown := (h.merges.sublist _ (List.mem_map_of_mem hpart)).subset
    refine hpages.ne_unfinished s.1.ahead (fun read page hmem key limit hkey => ?_) ?_
    · obtain ⟨v, hv, hanswer⟩ := hanswered read page (hown hmem)
      exact Memory.ahead_lt (hv.read_of_ok hanswer) hkey limit
    · refine Nat.lt_succ_of_le ((s.1.ahead_le read).trans (Nat.le_of_eq ?_))
      exact congrArg SortedMap.size hstays.items.symm

theorem performTogether_passed (table : Table) (retry : RetryPolicy) (receiver : Receiver)
    (operation : Operation) (hs : s.1.Keyed) :
    ((received table retry receiver).performTogether pauses schedule operation s).Passed
      (fun s => s.1.Keyed) (received table retry receiver).Course s := by
  have hP := passage_course (received table retry receiver)
  cases operation with
  | batchWrite entries =>
    exact (writeTogether_passed pauses schedule entries hs).bind_pure hP _
  | batchGet keys =>
    exact (getTogether_passed pauses schedule keys hs).bind_pure hP _
  | parallelScan segments options start =>
    exact (scanTogether_passed pauses schedule segments options start hs).bind_pure hP _
  | get key => exact (passes_received table retry receiver).perform hP (.get key) s hs
  | put item condition =>
    exact (passes_received table retry receiver).perform hP (.put item condition) s hs
  | query key options =>
    exact (passes_received table retry receiver).perform hP (.query key options) s hs
  | scan options start =>
    exact (passes_received table retry receiver).perform hP (.scan options start) s hs

end Together

theorem Course.items_eq {events : List Event} {t : Memory × List Delivery}
    (h : (received table retry receiver).Course s events t)
    (hevents : ∀ request refusal, .asked request refusal ∈ events →
      request.IsRead ∨ ∃ put, request = .put put ∧ refusal.isSome) :
    t.1.items = s.1.items := by
  refine h.keeps (I := fun t => t.1.items = s.1.items) ?_
    (fun _ t (hitems : t.1.items = s.1.items) => hitems) rfl
  intro request refusal hmem s' result t hanswer hrefusal hitems
  obtain ⟨hresult, rfl⟩ := Prod.mk.inj hanswer
  refine Eq.trans ?_ hitems
  obtain hread | ⟨put, rfl, hrefused⟩ := hevents request refusal hmem
  · exact Memory.items_answer_of_isRead hread s'.1
  · cases result with
    | ok reply =>
      rw [← hrefusal] at hrefused
      cases hrefused
    | error error => exact Memory.items_answer_of_refused hresult

end Gateway

def SessionStep.leaves (table : Table) (retry : RetryPolicy) (pauses : Pauses) (m : Memory) :
    SessionStep → Memory
  | .inject injection => m.inject injection
  | .perform operation receiver schedule =>
    let g := Gateway.received table retry receiver
    (g.performTogether pauses schedule operation (m, [])).store.1

def Memory.after (table : Table) (retry : RetryPolicy) (pauses : Pauses) (m : Memory)
    (steps : List SessionStep) : Memory :=
  steps.foldl (SessionStep.leaves table retry pauses) m

theorem session_append (table : Table) (retry : RetryPolicy) (pauses : Pauses)
    (steps others : List SessionStep) (m : Memory) :
    session table retry pauses (steps ++ others) m =
      session table retry pauses steps m ++
        session table retry pauses others (m.after table retry pauses steps) := by
  induction steps generalizing m with
  | nil => rfl
  | cons step steps ih =>
    cases step with
    | inject injection => exact ih _
    | perform operation receiver schedule => exact congrArg (_ :: ·) (ih _)

namespace Memory.Becomes

variable {m n : Memory} {retry : RetryPolicy} {pauses : Pauses}

theorem perform (h : m.Becomes n) (table : Table) (receiver : Receiver) (schedule : List Nat)
    (operation : Operation) :
    m.Becomes ((Gateway.received table retry receiver).performTogether pauses schedule operation
      (n, [])).store.1 :=
  have hpassed :=
    Gateway.performTogether_passed pauses schedule table retry receiver operation h.keyed
  hpassed.way.becomes h

theorem after (h : m.Becomes n) (table : Table) (steps : List SessionStep) :
    m.Becomes (n.after table retry pauses steps) := by
  induction steps generalizing n with
  | nil => exact h
  | cons step steps ih =>
    cases step with
    | inject injection => exact ih (h.inject injection)
    | perform operation receiver schedule => exact ih (h.perform table receiver schedule operation)

end Memory.Becomes

end KeyedTable
