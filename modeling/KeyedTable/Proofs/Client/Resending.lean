import KeyedTable.Proofs.Client.Calling
import KeyedTable.Proofs.Gateway.Dwindling

namespace KeyedTable

variable {σ α β ν : Type}

/-- A call that is made again while it is throttled, so many times at most, and its last answer. -/
inductive Call.Made (call : Call) : Nat → List Exchange → Except Failure call.Answer → Prop
  | last {left answer} :
      (∀ failure, answer = .error failure → failure.error.isThrottling → left = 0) →
      Made call left [⟨call, answer⟩] answer
  | again {left failure calls answer} : failure.error.isThrottling → Made call left calls answer →
      Made call (left + 1) (⟨call, .error failure⟩ :: calls) answer

theorem Call.Made.last_mem {call : Call} {left : Nat} {calls : List Exchange}
    {answer : Except Failure call.Answer} (h : call.Made left calls answer) :
    ⟨call, answer⟩ ∈ calls := by
  induction h with
  | last => exact List.mem_cons_self
  | again _ _ ih => exact .tail _ ih

structure Sending (ν : Type) where
  call : List ν → Call
  left : ∀ {pending}, (call pending).Answer → List ν
  found : ∀ {pending}, (call pending).Answer → List Item

namespace Sending

def writes (table : String) : Sending WriteCall where
  call entries := .batchWriteItem [(table, entries)]
  left unprocessed := listed unprocessed table
  found _ := []

def gets (table : String) : Sending Item where
  call keys := .batchGetItem [(table, keys)]
  left answer := listed answer.unprocessed table
  found answer := listed answer.responses table

inductive Course (sending : Sending ν) (maxRetries : Nat) :
    List ν → List Exchange → Outcome (List Item) → Prop
  | nothing : Course sending maxRetries [] [] (.done [])
  | cutOff {pending} : pending ≠ [] → Course sending maxRetries pending [] .unfinished
  | refused {pending calls failure} : pending ≠ [] →
      (sending.call pending).Made maxRetries calls (.error failure) →
      Course sending maxRetries pending calls (.failed failure.error)
  | answered {pending calls answer rest outcome} : pending ≠ [] →
      (sending.call pending).Made maxRetries calls (.ok answer) →
      Course sending maxRetries (sending.left answer) rest outcome →
      Course sending maxRetries pending (calls ++ rest)
        (outcome.map (sending.found answer ++ ·))

/-- What a run comes to that sends each of the blocks on its own. -/
def Resubmits (sending : Sending ν) (g : Gateway (σ × List Exchange)) (s : σ × List Exchange)
    (blocks : List (List ν)) (gather : List (List Item) → β)
    (ran : Ran (σ × List Exchange) β) : Prop :=
  ∃ courses : List (List Exchange × Outcome (List Item)),
    List.Forall₂ (fun block course =>
      sending.Course g.retry.maxRetries block course.1 course.2) blocks courses ∧
    (∃ calls, Merges (courses.map Prod.fst) calls ∧ ran.store.2 = s.2 ++ calls) ∧
    ran.outcome = (Outcome.all (courses.map Prod.snd)).map gather ∧
    (g.Dwindles → ran.outcome ≠ .unfinished)

end Sending

theorem Happening.Told.of_calling {request : Request} {result : Except Error request.Reply}
    {calls : List Exchange} (h : Told (.exchanged request result) calls)
    {calling : Calling request.Reply} (hcalling : request.calling = .ok calling) :
    ∃ answer, result = (answer.mapError Failure.error).map calling.reply ∧
      calls = [⟨calling.call, answer⟩] := by
  cases h with
  | unsent hunsent => cases hcalling.symm.trans hunsent
  | @called _ _ answer hcalled =>
    obtain rfl := Except.ok.inj (hcalling.symm.trans hcalled)
    exact ⟨answer, rfl, rfl⟩

theorem Attempted.made {policy : RetryPolicy} {request : Request} {left used : Nat}
    {own : List Happening} {result : Except Error request.Reply}
    (h : Attempted policy request left used own result) {told : List (List Exchange)}
    (htold : List.Forall₂ Happening.Told own told) {calling : Calling request.Reply}
    (hcalling : request.calling = .ok calling) :
    ∃ answer, result = (answer.mapError Failure.error).map calling.reply ∧
      calling.call.Made left told.flatten answer := by
  induction h generalizing told with
  | @last left _ result hlast =>
    obtain ⟨calls, _, hcalls, hnone, rfl⟩ := List.forall₂_cons_left_iff.mp htold
    cases hnone
    obtain ⟨answer, rfl, rfl⟩ := hcalls.of_calling hcalling
    refine ⟨answer, rfl, .last fun failure hfailure hthrottling => hlast.resolve_left fun h => ?_⟩
    subst hfailure
    have := h _ rfl
    simp [hthrottling] at this
  | again _ ih =>
    obtain ⟨calls, others, hcalls, hothers, rfl⟩ := List.forall₂_cons_left_iff.mp htold
    obtain ⟨_, later, hlogged, hlater, rfl⟩ := List.forall₂_cons_left_iff.mp hothers
    obtain ⟨_, told, hwaited, hrest, rfl⟩ := List.forall₂_cons_left_iff.mp hlater
    cases hlogged
    cases hwaited
    obtain ⟨answer, hthrottled, rfl⟩ := hcalls.of_calling hcalling
    obtain ⟨last, hresult, hmade⟩ := ih hrest
    refine ⟨last, hresult, ?_⟩
    cases answer with
    | ok answer => cases hthrottled
    | error failure =>
      refine .again ?_ hmade
      rw [← Except.error.inj hthrottled]
      rfl

structure Batching.Conveys (batching : Batching α) (sending : Sending ν) (write : α → ν)
    (given : Exchange → Prop) : Prop where
  calling : ∀ pending, ∃ reply,
    (batching.request pending).calling = .ok ⟨sending.call (pending.map write), reply⟩ ∧
    ∀ answer, batching.found (reply answer) = sending.found answer ∧
      (given ⟨sending.call (pending.map write), .ok answer⟩ →
        (batching.left (reply answer)).map write = sending.left answer)

theorem Batching.Rounds.course {batching : Batching α} {sending : Sending ν} {write : α → ν}
    {given : Exchange → Prop} (hconveys : batching.Conveys sending write given)
    {retry : RetryPolicy} {rounds : Nat} {pending : List α} {own : List Happening}
    {outcome : Outcome (List Item)} (h : batching.Rounds retry rounds pending own outcome)
    {told : List (List Exchange)} (htold : List.Forall₂ Happening.Told own told)
    (hgiven : ∀ exchange ∈ told.flatten, given exchange) :
    sending.Course retry.maxRetries (pending.map write) told.flatten outcome := by
  induction h generalizing told with
  | nothing =>
    cases htold
    exact .nothing
  | cutOff hne =>
    cases htold
    exact .cutOff (mt List.map_eq_nil_iff.mp hne)
  | @refused _ pending _ _ hne hattempted =>
    obtain ⟨reply, hcalling, -⟩ := hconveys.calling pending
    obtain ⟨answer, hresult, hmade⟩ := hattempted.made htold hcalling
    cases answer with
    | ok answer => cases hresult
    | error failure =>
      cases hresult
      exact .refused (mt List.map_eq_nil_iff.mp hne) hmade
  | @answered _ pending _ _ _ _ hne hattempted _ ih =>
    obtain ⟨first, rest, rfl, hfirst, hrest⟩ := forall₂_append_iff.mp htold
    rw [List.flatten_append] at hgiven ⊢
    obtain ⟨hgiven, hothers⟩ := List.forall_mem_append.mp hgiven
    obtain ⟨reply, hcalling, hsays⟩ := hconveys.calling pending
    obtain ⟨answer, hresult, hmade⟩ := hattempted.made hfirst hcalling
    cases answer with
    | error failure => cases hresult
    | ok answer =>
      obtain rfl := Except.ok.inj hresult
      obtain ⟨hfound, hleft⟩ := hsays answer
      have hrest := ih hrest hothers
      rw [hleft (hgiven _ hmade.last_mem)] at hrest
      rw [hfound]
      exact .answered (mt List.map_eq_nil_iff.mp hne) hmade hrest

/-- Of a batch write, only entries that were sent are listed as left. -/
def Exchange.givesBack (table : String) : Exchange → Bool
  | ⟨.batchWriteItem tables, .ok answer⟩ =>
    tables.all fun (name, entries) => decide (name = table → listed answer table ⊆ entries)
  | _ => true

theorem conveys_writes (table : String) :
    (Batching.writes table).Conveys (.writes table) WriteCall.ofEntry
      fun exchange => exchange.givesBack table where
  calling pending := by
    refine ⟨_, rfl, fun answer => ⟨rfl, fun hgiven => ?_⟩⟩
    have hsubset : listed answer table ⊆ pending.map WriteCall.ofEntry := by
      simpa [Exchange.givesBack, Sending.writes] using hgiven
    exact WriteCall.map_ofEntry_filterMap hsubset

theorem conveys_gets (table : String) :
    (Batching.gets table).Conveys (.gets table) id fun _ => True where
  calling pending := by
    rw [List.map_id]
    exact ⟨_, rfl, fun answer => ⟨rfl, fun _ => List.map_id _⟩⟩

theorem seesLeft_writes (table : String) : (Batching.writes table).SeesLeft := by
  intro pending reply hleft
  have hsome := List.isEmpty_eq_false_iff.mpr hleft
  exact congrArg not hsome

theorem seesLeft_gets (table : String) : (Batching.gets table).SeesLeft := by
  intro pending reply hleft
  have hsome := List.isEmpty_eq_false_iff.mpr hleft
  exact congrArg not hsome

theorem Batching.Conveys.exists_courses {batching : Batching α} {sending : Sending ν}
    {write : α → ν} {given : Exchange → Prop} (hconveys : batching.Conveys sending write given)
    {retry : RetryPolicy} {γ : Type} {finish : List Item → γ} {bound : σ → List α → Nat}
    {begun : σ → List Happening → Prop} {parts : List (Part γ)} {told : List (List (List Exchange))}
    (htold : List.Forall₂ (fun part told => List.Forall₂ Happening.Told part.own told) parts told)
    {blocks : List (List α)}
    (hrounds : List.Forall₂ (fun block part => ∃ u items, begun u part.own ∧
      batching.Rounds retry (bound u block) block part.own items ∧
      part.outcome = items.map finish) blocks parts)
    (hgiven : ∀ part ∈ told, ∀ exchange ∈ part.flatten, given exchange) :
    ∃ courses : List (List Exchange × Outcome (List Item)),
      List.Forall₂ (fun block course =>
        sending.Course retry.maxRetries (block.map write) course.1 course.2) blocks courses ∧
      courses.map Prod.fst = told.map List.flatten ∧
      parts.map Part.outcome = (courses.map Prod.snd).map (Outcome.map finish) := by
  induction hrounds generalizing told with
  | nil =>
    cases htold
    exact ⟨[], .nil, rfl, rfl⟩
  | cons hfirst _ ih =>
    obtain ⟨own, told, hown, hothers, rfl⟩ := List.forall₂_cons_left_iff.mp htold
    obtain ⟨hnow, hlater⟩ := List.forall_mem_cons.mp hgiven
    obtain ⟨courses, hcourses, hfsts, hsnds⟩ := ih hothers hlater
    obtain ⟨u, items, -, hrounds, houtcome⟩ := hfirst
    exact ⟨(own.flatten, items) :: courses, .cons (hrounds.course hconveys hown hnow) hcourses,
      congrArg _ hfsts, List.cons_eq_cons.mpr ⟨houtcome, hsnds⟩⟩

theorem Batching.Conveys.resubmits {batching : Batching α} {sending : Sending ν} {write : α → ν}
    {given : Exchange → Prop} (hconveys : batching.Conveys sending write given)
    (hsees : batching.SeesLeft) {client : Client σ} {horizon : σ → Nat}
    {visit : Delivery → σ → σ} {table : Table} {retry : RetryPolicy} {s : σ × List Exchange}
    {γ : Type} {starts : List (σ × List Exchange → Task γ)} {gather : List γ → β}
    {ran : Ran (σ × List Exchange) β} {parts : List (Part γ)} {whole : List Happening}
    (h : (Gateway.calling client horizon visit table retry).Parted s starts gather ran parts whole)
    {blocks : List (List α)} {finish : List Item → γ}
    (hrounds : List.Forall₂ (fun block part => ∃ u items,
      (Gateway.calling client horizon visit table retry).Begun s whole u part.own ∧
      batching.Rounds retry (horizon u.1 + block.length) block part.own items ∧
      part.outcome = items.map finish) blocks parts)
    (hgiven : ∀ exchange ∈ ran.store.2, given exchange) :
    sending.Resubmits (Gateway.calling client horizon visit table retry) s
      (blocks.map (List.map write)) (gather ∘ List.map finish) ran := by
  obtain ⟨told, htold, calls, hmerges, hcalls⟩ := h.exists_told
  have hgiven : ∀ part ∈ told, ∀ exchange ∈ part.flatten, given exchange := by
    intro part hpart exchange hexchange
    refine hgiven exchange ?_
    rw [hcalls]
    exact List.mem_append_right _ (hmerges.mem_iff.mpr ⟨_, List.mem_map_of_mem hpart, hexchange⟩)
  obtain ⟨courses, hcourses, hfsts, hsnds⟩ := hconveys.exists_courses htold hrounds hgiven
  refine ⟨courses, List.forall₂_map_left_iff.mpr hcourses, ⟨calls, hfsts ▸ hmerges, hcalls⟩, ?_,
    fun hdwindles => ?_⟩
  · rw [h.outcome, hsnds, Outcome.all_map_map]
    cases Outcome.all (courses.map Prod.snd) <;> rfl
  · refine h.ne_unfinished fun part hpart => ?_
    obtain ⟨block, -, u, items, hbegun, hrounds, houtcome⟩ := exists_of_forall₂_right hrounds hpart
    have hitems := hrounds.ne_unfinished_of_dwindles hdwindles hsees h.follows hbegun
    rw [houtcome]
    cases items with
    | done | failed => exact nofun
    | unfinished => exact absurd rfl hitems

end KeyedTable
