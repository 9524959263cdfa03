import KeyedTable.Json.Basic
import KeyedTable.Proofs.Client.Calling
import KeyedTable.Proofs.Reading.PageByPage
import KeyedTable.Store.Wire

namespace KeyedTable

variable {σ : Type}

namespace Read

variable {first : Read}

theorem excess_of_less (h : first.excess = none) (start : Option Item) (spent : Nat) :
    excess { first with start, limit := first.limit.map (· - spent) } = none := by
  rw [excess_eq_none_iff, counts, List.forall_mem_append] at h ⊢
  refine ⟨?_, h.2⟩
  have hlimit := h.1
  cases hn : first.limit with
  | none => simp
  | some n =>
    have hle : n ≤ maxCount := by simpa [hn] using hlimit
    simpa using Nat.le_trans (Nat.sub_le n spent) hle

theorem excess_eq_none_of_query {keyCondition : String} {forward : Bool}
    (hscope : first.scope = .query keyCondition forward) :
    first.excess = none ↔ ¬ ∃ n ∈ first.limit, 2147483647 < n := by
  rw [excess_eq_none_iff, counts, hscope]
  simp [maxCount]

theorem excess_eq_none_of_segment {number total : Nat} (hnumber : number < total)
    (hscope : first.scope = .segment number total) :
    first.excess = none ↔ ¬ ((∃ n ∈ first.limit, 2147483647 < n) ∨ 2147483647 < total) := by
  have hless : number ≤ 2147483647 ∧ total ≤ 2147483647 ↔ total ≤ 2147483647 := by omega
  rw [excess_eq_none_iff, counts, hscope, List.forall_mem_append]
  simp [maxCount, hless]

end Read

structure Account where
  events : List Event
  calls : List Exchange
  outcome : Outcome Unit

def Account.requests (account : Account) : List Request :=
  account.events.filterMap fun
    | .asked request _ => some request
    | _ => none

/-- The first request is given. It has the counts that it is meant to have, and so has every later
one, but for the limit, which is what the pages before leave of it. So say the calls, too. -/
structure Counted (first : Read) (account : Account) : Prop where
  begins : ∃ refusal rest, account.events = .asked (.read first) refusal :: rest
  asked : ∀ before request refusal after,
    account.events = before ++ .asked request refusal :: after →
      (∃ start, request =
        .read { first with start, limit := first.limit.map (· - handed before) }) ∧
      ∀ n ∈ first.limit, handed before < n
  called : List.Forall₂ (fun request exchange =>
    ∃ read, request = .read read ∧ exchange.call.Carries read) account.requests account.calls
  fits : ∀ misuse, account.outcome ≠ .failed (.invalidArgument misuse)

/-- A count of the first request is too large: nothing is called, and nothing is tried again. -/
def Unsent (first : Read) (account : Account) : Prop :=
  ∃ what, account = ⟨[.asked (.read first) (some (.invalidArgument (.outOfRange what)))], [],
    .failed (.invalidArgument (.outOfRange what))⟩

def Exact (first : Read) (tooLarge : Prop) (account : Account) : Prop :=
  (tooLarge → Unsent first account) ∧ (¬ tooLarge → Counted first account)

structure Account.Of (s : σ × List Exchange) (ran : Ran (σ × List Exchange) Unit)
    (account : Account) : Prop where
  events : ran.events = account.events
  calls : ran.store.2 = s.2 ++ account.calls
  outcome : ran.outcome = account.outcome

/-- A run that comes to several accounts, each of them in its own order. -/
structure Account.Merge (s : σ × List Exchange) (ran : Ran (σ × List Exchange) Unit)
    (accounts : List Account) : Prop where
  events : ∃ whole, ∃ notices : List Notice, Merges (accounts.map Account.events) whole ∧
    ran.events = whole ++ notices.map .logged
  calls : ∃ calls, Merges (accounts.map Account.calls) calls ∧ ran.store.2 = s.2 ++ calls
  outcome : ran.outcome = (Outcome.all (accounts.map Account.outcome)).map fun _ => ()

def Part.account (part : Part Unit) (told : List (List Exchange)) : Account :=
  ⟨part.own.map Happening.event, told.flatten, part.outcome⟩

namespace Gateway.Paged

variable {g : Gateway σ} {rounds : Nat} {prev : Option (Option Item)} {first : Read} {s : σ}
  {ran : Ran σ Unit}

theorem asked_of_limit_none (h : g.Paged rounds prev first s ran) (hlimit : first.limit = none)
    {request : Request} {refusal : Option Error} (hasked : .asked request refusal ∈ ran.events) :
    ∃ start, request = .read { first with start } := by
  have hsubmit : ∀ {read s outcome t events},
      g.submit (.read read) s = ⟨outcome, t, events⟩ →
      .asked request refusal ∈ events → request = .read read := by
    intro read s outcome t events h hmem
    have htried := tried_submit g (.read read) s
    rw [h] at htried
    exact htried.asked hmem
  induction h with
  | cutOff => cases hasked
  | @failed _ _ read _ _ _ _ hfirst => exact ⟨read.start, hsubmit hfirst hasked⟩
  | @last _ _ read _ _ _ _ hfirst =>
    simp only [List.mem_append, List.mem_singleton, reduceCtorEq, or_false] at hasked
    exact ⟨read.start, hsubmit hfirst hasked⟩
  | @more _ _ read _ _ _ _ key limit _ hfirst _ hcharge _ ih =>
    obtain rfl : limit = none := by
      rw [hlimit] at hcharge
      exact (Option.some.inj hcharge).symm
    simp only [List.mem_append, List.mem_cons, reduceCtorEq, false_or] at hasked
    obtain hasked | hasked := hasked
    · exact ⟨read.start, hsubmit hfirst hasked⟩
    · obtain ⟨start, hrequest⟩ := ih rfl hasked
      exact ⟨start, by rw [hrequest, ← hlimit]⟩

theorem asked_less (h : g.Paged rounds prev first s ran) (hlimit : first.limit ≠ some 0)
    {before after : List Event} {request : Request} {refusal : Option Error}
    (hevents : ran.events = before ++ .asked request refusal :: after) :
    (∃ start, request =
      .read { first with start, limit := first.limit.map (· - handed before) }) ∧
      ∀ n ∈ first.limit, handed before < n := by
  cases hn : first.limit with
  | none =>
    have hmem : .asked request refusal ∈ ran.events := by simp [hevents]
    obtain ⟨start, rfl⟩ := h.asked_of_limit_none hn hmem
    exact ⟨⟨start, by rw [hn]; rfl⟩, by simp⟩
  | some n =>
    have hne : n ≠ 0 := fun hzero => hlimit (hn.trans (congrArg some hzero))
    obtain ⟨hlt, start, hrequest⟩ :=
      (h.limited (Nat.pos_of_ne_zero hne) hn).asked before request refusal after hevents
    exact ⟨⟨start, hrequest⟩, by simpa using hlt⟩

end Gateway.Paged

theorem Task.Goes.asked_less {g : Gateway σ} {pauses : Pauses} {rounds : Nat}
    {prev : Option (Option Item)} {first : Read} {own : List Happening} {outcome : Outcome Unit}
    (h : (g.reading pauses rounds prev first).Goes own outcome) (hlimit : first.limit ≠ some 0)
    {before after : List Event} {request : Request} {refusal : Option Error}
    (hevents : own.map Happening.event = before ++ .asked request refusal :: after) :
    (∃ start, request =
      .read { first with start, limit := first.limit.map (· - handed before) }) ∧
      ∀ n ∈ first.limit, handed before < n := by
  have halone := Task.Goes.carryOut_alone h g 0
  rw [← Gateway.alone_reading 0, Gateway.carryOut_reading] at halone
  have hpaged := (g.alone 0).paged_pages rounds prev first (answers own)
  rw [halone] at hpaged
  exact hpaged.asked_less hlimit hevents

namespace Gateway.PageByPage

variable {g : Gateway σ} {rounds : Nat} {prev : Option (Option Item)} {first : Read}
  {own : List Happening} {outcome : Outcome Unit}

theorem exists_failed (h : g.PageByPage rounds prev first own outcome) {error : Error}
    (houtcome : outcome = .failed error) :
    ∃ read, .exchanged (.read read) (.error error) ∈ own := by
  induction h with
  | cutOff | last => cases houtcome
  | refused hattempted =>
    cases houtcome
    exact ⟨_, hattempted.last_mem⟩
  | more _ _ _ _ ih =>
    obtain ⟨read, hmem⟩ := ih houtcome
    exact ⟨read, List.mem_append_right _ (.tail _ hmem)⟩

end Gateway.PageByPage

namespace Happening.Told

theorem of_excess {read : Read} {result : Except Error Page} {calls : List Exchange} {what : String}
    (h : Told (.exchanged (.read read) result) calls) (hexcess : read.excess = some what) :
    result = .error (.invalidArgument (.outOfRange what)) ∧ calls = [] := by
  have hcalling := Read.calling_of_excess hexcess
  cases h with
  | unsent hunsent =>
    obtain rfl := Except.error.inj (hcalling.symm.trans hunsent)
    exact ⟨rfl, rfl⟩
  | called hcalled => cases hcalling.symm.trans hcalled

theorem of_fits {read : Read} {result : Except Error Page} {calls : List Exchange}
    (h : Told (.exchanged (.read read) result) calls) (hfits : read.excess = none) :
    (∃ exchange : Exchange, calls = [exchange] ∧ exchange.call.Carries read) ∧
      ∀ misuse, result ≠ .error (.invalidArgument misuse) := by
  obtain ⟨calling, hcalling⟩ := Read.exists_calling hfits
  cases h with
  | unsent hunsent => cases hcalling.symm.trans hunsent
  | @called _ called answer hcalled =>
    obtain rfl := Except.ok.inj (hcalling.symm.trans hcalled)
    refine ⟨⟨_, rfl, (Read.calls_of_calling hcalling).carries⟩, fun misuse hresult => ?_⟩
    cases answer with
    | ok answer => cases hresult
    | error failure => exact failure.error_ne_invalidArgument misuse (Except.error.inj hresult)

end Happening.Told

theorem Attempted.of_excess {policy : RetryPolicy} {first : Read} {left used : Nat}
    {own : List Happening} {result : Except Error (Request.read first).Reply}
    {told : List (List Exchange)} (h : Attempted policy (.read first) left used own result)
    (htold : List.Forall₂ Happening.Told own told) {what : String}
    (hexcess : first.excess = some what) :
    result = .error (.invalidArgument (.outOfRange what)) ∧
      own = [.exchanged (.read first) result] ∧ told = [[]] := by
  cases h with
  | last =>
    obtain ⟨calls, _, hcalls, hrest, rfl⟩ := List.forall₂_cons_left_iff.mp htold
    cases hrest
    obtain ⟨hresult, rfl⟩ := hcalls.of_excess hexcess
    exact ⟨hresult, rfl, rfl⟩
  | again =>
    obtain ⟨calls, _, hcalls, -, -⟩ := List.forall₂_cons_left_iff.mp htold
    cases (hcalls.of_excess hexcess).1

theorem called_of_told {own : List Happening} {told : List (List Exchange)}
    (htold : List.Forall₂ Happening.Told own told)
    (hasked : ∀ request result, .exchanged request result ∈ own →
      ∃ read, request = .read read ∧ read.excess = none)
    (hemitted : ∀ request refusal, .emitted (.asked request refusal) ∉ own)
    (outcome : Outcome Unit) :
    List.Forall₂ (fun request exchange =>
      ∃ read, request = .read read ∧ exchange.call.Carries read)
      (Part.account ⟨own, outcome⟩ told).requests told.flatten := by
  induction htold with
  | nil => exact .nil
  | @cons happening calls own told hcalls _ ih =>
    have hrest := ih (fun request result hmem => hasked request result (.tail _ hmem))
      fun request refusal hmem => hemitted request refusal (.tail _ hmem)
    cases happening with
    | exchanged request result =>
      obtain ⟨read, rfl, hfits⟩ := hasked request result List.mem_cons_self
      obtain ⟨⟨exchange, rfl, hcarries⟩, -⟩ := hcalls.of_fits hfits
      exact .cons ⟨read, rfl, hcarries⟩ hrest
    | emitted event =>
      cases hcalls
      cases event with
      | asked request refusal => exact absurd List.mem_cons_self (hemitted request refusal)
      | waited | logged | delivered => exact hrest

section Reading

variable {g : Gateway σ} {pauses : Pauses} {rounds : Nat} {prev : Option (Option Item)}
  {first : Read} {part : Part Unit} {told : List (List Exchange)}

theorem unsent_of_goes (h : part.Of (g.reading pauses (rounds + 1) prev first))
    (htold : List.Forall₂ Happening.Told part.own told) {what : String}
    (hexcess : first.excess = some what) : Unsent first (part.account told) := by
  obtain ⟨own, outcome⟩ := part
  cases Gateway.PageByPage.of_goes h with
  | refused hattempted =>
    obtain ⟨herror, rfl, rfl⟩ := hattempted.of_excess htold hexcess
    cases herror
    exact ⟨what, rfl⟩
  | last hattempted | more hattempted =>
    obtain ⟨_, _, rfl, hown, -⟩ := forall₂_append_iff.mp htold
    cases (hattempted.of_excess hown hexcess).1

theorem counted_of_goes (h : part.Of (g.reading pauses (rounds + 1) prev first))
    (htold : List.Forall₂ Happening.Told part.own told) (hlimit : first.limit ≠ some 0)
    (hfits : first.excess = none) : Counted first (part.account told) := by
  obtain ⟨own, outcome⟩ := part
  have hpages := Gateway.PageByPage.of_goes h
  have hasked : ∀ request result, .exchanged request result ∈ own →
      ∃ read, request = .read read ∧ read.excess = none := by
    intro request result hmem
    have hevent := List.mem_map_of_mem (f := Happening.event) hmem
    obtain ⟨before, after, hevents⟩ := List.append_of_mem hevent
    obtain ⟨⟨start, hrequest⟩, -⟩ := Task.Goes.asked_less h hlimit hevents
    exact ⟨_, hrequest, Read.excess_of_less hfits start _⟩
  have hemitted : ∀ request refusal, .emitted (.asked request refusal) ∉ own := by
    intro request refusal hmem
    obtain hquiet | ⟨page, hpage⟩ := hpages.emitted hmem
    · exact hquiet
    · cases hpage
  refine ⟨?_, fun before request refusal after hevents =>
    Task.Goes.asked_less h hlimit hevents, called_of_told htold hasked hemitted outcome,
    fun misuse hfailed => ?_⟩
  · obtain ⟨result, rest, rfl⟩ := hpages.exists_cons
    exact ⟨_, _, rfl⟩
  · obtain ⟨read, hmem⟩ := hpages.exists_failed hfailed
    obtain ⟨before, after, rfl⟩ := List.append_of_mem hmem
    obtain ⟨_, calls, _, rfl, -, hcalls, -⟩ := forall₂_middle_iff.mp htold
    obtain ⟨_, hread, hexcess⟩ := hasked _ _ hmem
    cases hread
    exact (hcalls.of_fits hexcess).2 misuse rfl

theorem exact_of_goes (h : part.Of (g.reading pauses (rounds + 1) prev first))
    (htold : List.Forall₂ Happening.Told part.own told) (hlimit : first.limit ≠ some 0)
    {tooLarge : Prop} (hfits : first.excess = none ↔ ¬ tooLarge) :
    Exact first tooLarge (part.account told) := by
  refine ⟨fun hlarge => ?_, fun hsmall => counted_of_goes h htold hlimit (hfits.mpr hsmall)⟩
  have hexcess : first.excess ≠ none := fun hnone => hfits.mp hnone hlarge
  obtain ⟨what, hwhat⟩ := Option.ne_none_iff_exists'.mp hexcess
  exact unsent_of_goes h htold hwhat

end Reading

section Accounts

variable {client : Client σ} {horizon : σ → Nat} {visit : Delivery → σ → σ} {table : Table}
  {retry : RetryPolicy} {s : σ × List Exchange} {reads : List Read} {tooLarge : Prop}
  {ran : Ran (σ × List Exchange) Unit} {accounts : List Account}

theorem exists_account (prev : Option (Option Item)) {first : Read} (hlimit : first.limit ≠ some 0)
    (hfits : first.excess = none ↔ ¬ tooLarge) (s : σ × List Exchange) :
    ∃ account : Account,
      account.Of s ((Gateway.calling client horizon visit table retry).readFrom prev first s) ∧
      Exact first tooLarge account := by
  let g := Gateway.calling client horizon visit table retry
  obtain ⟨part, t, hran, hpart, hfollows⟩ :=
    g.exists_goes (g.reading ⟨false, false⟩ (g.store.horizon s + 1) prev first) s
  rw [Gateway.carryOut_reading] at hran
  have hran : g.readFrom prev first s = ⟨part.outcome, t, part.own.map Happening.event⟩ := hran
  obtain ⟨told, htold, hcalls⟩ := hfollows.exists_told
  refine ⟨part.account told, ⟨?_, ?_, ?_⟩, exact_of_goes hpart htold hlimit hfits⟩
  · exact congrArg Ran.events hran
  · exact (congrArg (fun ran => ran.store.2) hran).trans hcalls
  · exact congrArg Ran.outcome hran

theorem exists_accounts {pauses : Pauses} {parts : List (Part Unit)} {whole : List Happening}
    (h : (Gateway.calling client horizon visit table retry).Parted s
      (reads.map ((Gateway.calling client horizon visit table retry).readStart pauses))
      (fun _ => ()) ran parts whole)
    (hlimit : ∀ first ∈ reads, first.limit ≠ some 0)
    (hfits : ∀ first ∈ reads, first.excess = none ↔ ¬ tooLarge) :
    ∃ accounts, Account.Merge s ran accounts ∧
      List.Forall₂ (fun first account => Exact first tooLarge account) reads accounts := by
  obtain ⟨told, htold, calls, hmerges, hcalls⟩ := h.exists_told
  have hparts := List.forall₂_map_left_iff.mp h.starts
  have hbeside : ∃ accounts : List Account,
      List.Forall₂ (fun first account => Exact first tooLarge account) reads accounts ∧
      accounts.map Account.events = (parts.map Part.own).map (List.map Happening.event) ∧
      accounts.map Account.calls = told.map List.flatten ∧
      accounts.map Account.outcome = parts.map Part.outcome := by
    clear h hmerges
    induction htold generalizing reads with
    | nil =>
      cases hparts
      exact ⟨[], .nil, rfl, rfl, rfl⟩
    | @cons part calls parts told hcalls _ ih =>
      cases hparts with
      | @cons first _ reads _ hpart hparts =>
        obtain ⟨hfirst, hothers⟩ := List.forall_mem_cons.mp hlimit
        obtain ⟨hfit, hfits⟩ := List.forall_mem_cons.mp hfits
        obtain ⟨accounts, hexact, hevents, hcalled, houtcomes⟩ := ih hothers hfits hparts
        obtain ⟨u, -, hgoes⟩ := hpart
        exact ⟨part.account calls :: accounts,
          .cons (exact_of_goes hgoes hcalls hfirst hfit) hexact,
          congrArg _ hevents, congrArg _ hcalled, congrArg _ houtcomes⟩
  obtain ⟨accounts, hexact, hevents, hcalled, houtcomes⟩ := hbeside
  obtain ⟨notices, hran⟩ := h.events
  refine ⟨accounts, ⟨⟨whole.map Happening.event, notices, ?_, hran⟩, ⟨calls, ?_, hcalls⟩, ?_⟩,
    hexact⟩
  · rw [hevents]
    exact h.merges.map Happening.event
  · rwa [hcalled]
  · rw [houtcomes]
    exact h.outcome

theorem Account.Merge.unsent (h : Account.Merge s ran accounts)
    (hunsent : List.Forall₂ Unsent reads accounts) :
    ran.store.2 = s.2 ∧
      (reads ≠ [] → ∃ what, ran.outcome = .failed (.invalidArgument (.outOfRange what))) := by
  refine ⟨?_, fun hreads => ?_⟩
  · obtain ⟨calls, hmerges, hcalls⟩ := h.calls
    have hnone : (accounts.map Account.calls).flatten = [] := by
      refine List.flatten_eq_nil_iff.mpr (List.forall_mem_map.mpr fun account haccount => ?_)
      obtain ⟨first, -, what, rfl⟩ := exists_of_forall₂_right hunsent haccount
      rfl
    have hperm := hmerges.perm
    rw [hnone] at hperm
    rw [hcalls, hperm.eq_nil, List.append_nil]
  · cases hunsent with
    | nil => exact absurd rfl hreads
    | cons hfirst _ =>
      obtain ⟨what, rfl⟩ := hfirst
      exact ⟨what, h.outcome⟩

end Accounts

/-- The segments of a scan, by whatever schedule they go on. -/
def SegmentsExact (reads : List Read) (tooLarge : Prop) (s : σ × List Exchange)
    (ran : Ran (σ × List Exchange) Unit) : Prop :=
  (∃ accounts, Account.Merge s ran accounts ∧
    List.Forall₂ (fun first account => Exact first tooLarge account) reads accounts) ∧
  (tooLarge → ran.store.2 = s.2 ∧
    (reads ≠ [] → ∃ what, ran.outcome = .failed (.invalidArgument (.outOfRange what))))

section

variable {client : Client σ} {horizon : σ → Nat} {visit : Delivery → σ → σ} {table : Table}
  {retry : RetryPolicy} {s : σ × List Exchange} {reads : List Read}
  {ran : Ran (σ × List Exchange) Unit}

theorem segmentsExact_of_parted {pauses : Pauses} {parts : List (Part Unit)}
    {whole : List Happening}
    (h : (Gateway.calling client horizon visit table retry).Parted s
      (reads.map ((Gateway.calling client horizon visit table retry).readStart pauses))
      (fun _ => ()) ran parts whole) {tooLarge : Prop}
    (hlimit : ∀ first ∈ reads, first.limit ≠ some 0)
    (hfits : ∀ first ∈ reads, first.excess = none ↔ ¬ tooLarge) :
    SegmentsExact reads tooLarge s ran := by
  obtain ⟨accounts, hmerge, hexact⟩ := exists_accounts h hlimit hfits
  exact ⟨⟨accounts, hmerge, hexact⟩, fun hlarge =>
    hmerge.unsent (hexact.imp fun _ _ hfirst => hfirst.1 hlarge)⟩

end

theorem Gateway.queryRead_scope {g : Gateway σ} {key : String} {options : QueryOptions}
    {first : Read} (h : g.queryRead key options = .ok first) :
    ∃ keyCondition, first.scope = .query keyCondition options.forward := by
  obtain ⟨_, -, h⟩ := exists_of_bind_ok h
  obtain ⟨_, -, h⟩ := exists_of_bind_ok h
  obtain ⟨_, -, h⟩ := exists_of_bind_ok h
  cases h
  exact ⟨_, rfl⟩

theorem Gateway.scanReads_excess {g : Gateway σ} {segments : Nat} {options : ScanOptions}
    {start : Option (List (Option Item))} {reads : List Read}
    (h : g.scanReads segments options start = .ok reads) :
    ∀ first ∈ reads, first.excess = none ↔
      ¬ ((∃ n ∈ options.limit, 2147483647 < n) ∨ 2147483647 < segments) := by
  intro first hfirst
  obtain ⟨number, hnumber, hscope⟩ := scanReads_scope h first hfirst
  rw [Read.excess_eq_none_of_segment hnumber hscope, (scanReads_limit h).2 first hfirst]

end KeyedTable
