import KeyedTable.Client
import KeyedTable.Proofs.Gateway.Parts

/-! What a client is called with for a request, what the store makes of its answer, and what calls
there are in a run. -/

namespace KeyedTable

variable {σ : Type}

namespace Count

theorem ofNat_of_le {n : Nat} (h : n ≤ maxCount) (what : String) : ofNat what n = .ok ⟨n, h⟩ :=
  dif_pos h

theorem ofNat_of_lt {n : Nat} (h : maxCount < n) (what : String) :
    ofNat what n = .error (.invalidArgument (.outOfRange what)) :=
  dif_neg (Nat.not_le_of_lt h)

theorem ofNat_eq_ok {what : String} {n : Nat} {count : Count} (h : ofNat what n = .ok count) :
    count.val = n := by
  by_cases hle : n ≤ maxCount
  · rw [ofNat_of_le hle] at h
    cases h
    rfl
  · rw [ofNat_of_lt (Nat.lt_of_not_le hle)] at h
    cases h

theorem mapM_ofNat_eq_ok {what : String} {n : Option Nat} {count : Option Count}
    (h : n.mapM (ofNat what) = .ok count) : count.map Subtype.val = n := by
  cases n with
  | none =>
    cases h
    rfl
  | some n =>
    rw [Option.mapM_some] at h
    obtain ⟨value, hvalue, hcount⟩ := exists_of_bind_ok h
    cases hcount
    exact congrArg some (ofNat_eq_ok hvalue)

theorem exists_mapM_ofNat {n : Option Nat} (h : ∀ m ∈ n, m ≤ maxCount) (what : String) :
    ∃ count, n.mapM (ofNat what) = .ok count := by
  cases n with
  | none => exact ⟨_, rfl⟩
  | some n =>
    rw [Option.mapM_some, ofNat_of_le (h n rfl)]
    exact ⟨_, rfl⟩

end Count

structure PageCall.Of (read : Read) (page : PageCall) : Prop where
  table : page.table = read.table
  index : page.index = read.index
  filter : page.filter = read.filter
  placeholders : page.placeholders = read.placeholders
  start : page.start = read.start
  limit : page.limit.map Subtype.val = read.limit

/-- The call says what the read says, with the same counts and no others. -/
inductive Call.Carries (read : Read) : Call → Prop
  | query {page keyCondition forward} : page.Of read → read.scope = .query keyCondition forward →
      Carries read (.query page keyCondition forward)
  | scan {page segment total} : page.Of read → read.scope = .segment segment.val total.val →
      Carries read (.scan page segment total)

inductive Read.Calls (read : Read) : Calling Page → Prop
  | query {page keyCondition forward} : Call.Carries read (.query page keyCondition forward) →
      Calls read ⟨.query page keyCondition forward, PageAnswer.page⟩
  | scan {page segment total} : Call.Carries read (.scan page segment total) →
      Calls read ⟨.scan page segment total, PageAnswer.page⟩

namespace Read

variable {read : Read}

theorem Calls.carries {calling : Calling Page} (h : read.Calls calling) :
    calling.call.Carries read := by
  cases h with
  | query h => exact h
  | scan h => exact h

theorem calls_of_calling {calling : Calling Page} (h : read.calling = .ok calling) :
    read.Calls calling := by
  obtain ⟨limit, hlimit, h⟩ := exists_of_bind_ok h
  have hpage : PageCall.Of read
      ⟨read.table, read.index, read.filter, read.placeholders, read.start, limit⟩ :=
    ⟨rfl, rfl, rfl, rfl, rfl, Count.mapM_ofNat_eq_ok hlimit⟩
  cases hscope : read.scope with
  | query keyCondition forward =>
    rw [hscope] at h
    cases h
    exact .query (.query hpage hscope)
  | segment number total =>
    rw [hscope] at h
    obtain ⟨segment, hsegment, h⟩ := exists_of_bind_ok h
    obtain ⟨segments, hsegments, h⟩ := exists_of_bind_ok h
    cases h
    refine .scan (.scan hpage ?_)
    rw [hscope, Count.ofNat_eq_ok hsegment, Count.ofNat_eq_ok hsegments]

def counts (read : Read) : List (String × Nat) :=
  (read.limit.map fun n => ("limit", n)).toList ++
    match read.scope with
    | .query _ _ => []
    | .segment number total => [("segment", number), ("total segments", total)]

def excess (read : Read) : Option String :=
  (read.counts.find? fun count => maxCount < count.2).map Prod.fst

theorem excess_eq_none_iff : read.excess = none ↔ ∀ count ∈ read.counts, count.2 ≤ maxCount := by
  simp [excess]

theorem calling_of_excess {what : String} (h : read.excess = some what) :
    read.calling = .error (.invalidArgument (.outOfRange what)) := by
  by_cases hlimit : ∀ n ∈ read.limit, n ≤ maxCount
  · obtain ⟨limit, hsent⟩ := Count.exists_mapM_ofNat hlimit "limit"
    have hscope : excess { read with limit := none } = some what := by
      rw [← h, excess, excess, counts, counts, List.find?_append]
      cases hn : read.limit <;> simp_all
    rw [calling, hsent]
    cases hread : read.scope with
    | query keyCondition forward => simp [excess, counts, hread] at hscope
    | segment number total =>
      rw [excess, counts, hread] at hscope
      by_cases hnumber : maxCount < number
      · obtain rfl : "segment" = what := by simpa [hnumber] using hscope
        simp only [bind, Except.bind, Count.ofNat_of_lt hnumber]
      · by_cases htotal : maxCount < total
        · obtain rfl : "total segments" = what := by simpa [hnumber, htotal] using hscope
          simp only [bind, Except.bind, Count.ofNat_of_le (Nat.not_lt.mp hnumber),
            Count.ofNat_of_lt htotal]
        · simp [hnumber, htotal] at hscope
  · obtain ⟨n, hn, hlt⟩ : ∃ n, read.limit = some n ∧ maxCount < n := by simpa using hlimit
    obtain rfl : "limit" = what := by simpa [excess, counts, hn, hlt] using h
    rw [calling, hn, Option.mapM_some, Count.ofNat_of_lt hlt]
    rfl

theorem exists_calling (h : read.excess = none) : ∃ calling, read.calling = .ok calling := by
  have hfits := excess_eq_none_iff.mp h
  rw [counts, List.forall_mem_append] at hfits
  obtain ⟨hlimit, hscope⟩ := hfits
  obtain ⟨limit, hsent⟩ := Count.exists_mapM_ofNat (n := read.limit)
    (fun n hn => hlimit ("limit", n) (by simp [Option.mem_def.mp hn])) "limit"
  rw [calling, hsent]
  cases hread : read.scope with
  | query keyCondition forward => exact ⟨_, rfl⟩
  | segment number total =>
    rw [hread] at hscope
    have hcounts : number ≤ maxCount ∧ total ≤ maxCount := by simpa using hscope
    simp only [bind, Except.bind, Count.ofNat_of_le hcounts.1, Count.ofNat_of_le hcounts.2]
    exact ⟨_, rfl⟩

end Read

namespace WriteCall

@[simp] theorem write?_ofEntry (entry : WriteEntry) : (ofEntry entry).write? = some entry := by
  cases entry <;> rfl

theorem map_ofEntry_filterMap {calls : List WriteCall} {entries : List WriteEntry}
    (h : calls ⊆ entries.map ofEntry) : (calls.filterMap write?).map ofEntry = calls := by
  induction calls with
  | nil => rfl
  | cons call calls ih =>
    obtain ⟨hcall, hcalls⟩ := List.cons_subset.mp h
    obtain ⟨entry, -, rfl⟩ := List.mem_map.mp hcall
    rw [List.filterMap_cons, write?_ofEntry, List.map_cons, ih hcalls]

end WriteCall

theorem Failure.error_ne_invalidArgument (failure : Failure) (misuse : Misuse) :
    failure.error ≠ .invalidArgument misuse := by
  unfold Failure.error
  split
  · nofun
  · split_ifs <;> nofun

section Store

variable {client : Client σ} {horizon : σ → Nat} {request : Request} {s t : σ}

theorem Store.ofClient_of_calling {calling : Calling request.Reply}
    (h : request.calling = .ok calling) (client : Client σ) (horizon : σ → Nat) (s : σ) :
    (Store.ofClient client horizon).answer request s =
      (((client calling.call s).1.mapError Failure.error).map calling.reply,
        (client calling.call s).2) := by
  simp only [Store.ofClient, h]

theorem Store.ofClient_of_error {error : Error} (h : request.calling = .error error)
    (client : Client σ) (horizon : σ → Nat) (s : σ) :
    (Store.ofClient client horizon).answer request s = (.error error, s) := by
  simp only [Store.ofClient, h]

theorem Store.ofClient_of_ok {reply : request.Reply}
    (h : (Store.ofClient client horizon).answer request s = (.ok reply, t)) :
    ∃ calling answer, request.calling = .ok calling ∧
      client calling.call s = (.ok answer, t) ∧ calling.reply answer = reply := by
  cases hcalling : request.calling with
  | error error =>
    rw [ofClient_of_error hcalling] at h
    cases h
  | ok calling =>
    rw [ofClient_of_calling hcalling] at h
    obtain ⟨hreply, rfl⟩ := Prod.mk.inj h
    cases hanswer : (client calling.call s).1 with
    | error failure =>
      rw [hanswer] at hreply
      cases hreply
    | ok answer =>
      rw [hanswer] at hreply
      exact ⟨calling, answer, rfl, Prod.ext hanswer rfl, Except.ok.inj hreply⟩

end Store

structure Exchange where
  call : Call
  answer : Except Failure call.Answer

def Client.recorded (client : Client σ) : Client (σ × List Exchange) := fun call s =>
  let answered := client call s.1
  (answered.1, (answered.2, s.2 ++ [⟨call, answered.1⟩]))

def Gateway.calling (client : Client σ) (horizon : σ → Nat) (visit : Delivery → σ → σ)
    (table : Table) (retry : RetryPolicy) : Gateway (σ × List Exchange) :=
  ⟨.ofClient client.recorded fun s => horizon s.1, table, retry,
    fun page s => (visit page s.1, s.2)⟩

/-- The calls that there are with something that happens: one with a request, unless a count does
not fit into it. -/
inductive Happening.Told : Happening → List Exchange → Prop
  | emitted (event : Event) : Told (.emitted event) []
  | unsent {request error} : request.calling = .error error →
      Told (.exchanged request (.error error)) []
  | called {request calling answer} : request.calling = .ok calling →
      Told (.exchanged request ((answer.mapError Failure.error).map calling.reply))
        [⟨calling.call, answer⟩]

theorem Gateway.Follows.exists_told {client : Client σ} {horizon : σ → Nat}
    {visit : Delivery → σ → σ} {table : Table} {retry : RetryPolicy} {s t : σ × List Exchange}
    {whole : List Happening} (h : (calling client horizon visit table retry).Follows s whole t) :
    ∃ told, List.Forall₂ Happening.Told whole told ∧ t.2 = s.2 ++ told.flatten := by
  induction h with
  | nothing => exact ⟨[], .nil, (List.append_nil _).symm⟩
  | @exchanged s u t request result whole hanswer _ ih =>
    obtain ⟨told, htold, ht⟩ := ih
    have hanswer : (Store.ofClient client.recorded fun s => horizon s.1).answer request s =
        (result, u) := hanswer
    cases hcalling : request.calling with
    | error error =>
      rw [Store.ofClient_of_error hcalling] at hanswer
      obtain ⟨rfl, rfl⟩ := Prod.mk.inj hanswer
      exact ⟨[] :: told, .cons (.unsent hcalling) htold, ht⟩
    | ok calling =>
      rw [Store.ofClient_of_calling hcalling] at hanswer
      obtain ⟨rfl, rfl⟩ := Prod.mk.inj hanswer
      refine ⟨_ :: told, .cons (.called hcalling) htold, ?_⟩
      rw [ht, List.flatten_cons, ← List.append_assoc]
      rfl
  | @emitted s t event whole _ ih =>
    obtain ⟨told, htold, ht⟩ := ih
    refine ⟨[] :: told, .cons (.emitted event) htold, ?_⟩
    rw [ht]
    cases event <;> rfl

theorem Gateway.Parted.exists_told {α β : Type} {client : Client σ} {horizon : σ → Nat}
    {visit : Delivery → σ → σ} {table : Table} {retry : RetryPolicy} {s : σ × List Exchange}
    {starts : List (σ × List Exchange → Task α)} {gather : List α → β}
    {ran : Ran (σ × List Exchange) β} {parts : List (Part α)} {whole : List Happening}
    (h : (calling client horizon visit table retry).Parted s starts gather ran parts whole) :
    ∃ told : List (List (List Exchange)),
      List.Forall₂ (fun part told => List.Forall₂ Happening.Told part.own told) parts told ∧
      ∃ calls, Merges (told.map List.flatten) calls ∧ ran.store.2 = s.2 ++ calls := by
  obtain ⟨all, hall, hcalls⟩ := h.follows.exists_told
  obtain ⟨told, hmerges, htold⟩ := h.merges.exists_beside hall
  refine ⟨told, List.forall₂_map_left_iff.mp htold, all.flatten, ?_, hcalls⟩
  have hflatten : (List.flatMap id : List (List Exchange) → List Exchange) = List.flatten :=
    funext fun _ => List.flatMap_id
  exact hflatten ▸ hmerges.flatMap id

end KeyedTable
