import KeyedTable.Proofs.Batch.Rounds
import KeyedTable.Proofs.Client.Calling
import KeyedTable.Proofs.Gateway.Passing
import KeyedTable.Proofs.Reading.PageByPage
import KeyedTable.Store.Wire

namespace KeyedTable

variable {σ : Type}

namespace Gateway

structure Dwindles (g : Gateway σ) : Prop where
  answer : ∀ request s, g.store.horizon (g.store.answer request s).2 ≤ g.store.horizon s
  visit : ∀ page s, g.store.horizon (g.visit page s) ≤ g.store.horizon s
  page : ∀ {read s page t}, g.store.answer (.read read) s = (.ok page, t) → page.lastKey ≠ none →
    g.store.horizon t < g.store.horizon s
  unwritten : ∀ {table entries s unprocessed t},
    g.store.answer (.writeBatch table entries) s = (.ok unprocessed, t) → unprocessed ≠ [] →
    g.store.horizon t < g.store.horizon s
  unfound : ∀ {table keys s found t},
    g.store.answer (.getBatch table keys) s = (.ok found, t) → found.unprocessed ≠ [] →
    g.store.horizon t < g.store.horizon s

def Spends (g : Gateway σ) (s : σ) (events : List Event) (t : σ) : Prop :=
  g.store.horizon t ≤ g.store.horizon s ∧
    ((∃ page ∈ deliveries events, page.next ≠ none) → g.store.horizon t < g.store.horizon s)

theorem passage_spends (g : Gateway σ) : Passage g.Spends where
  nothing s := ⟨Nat.le_refl _, by simp [deliveries]⟩
  logged notice s := ⟨Nat.le_refl _, by simp [deliveries]⟩
  append := by
    rintro s t u before after ⟨hle, hless⟩ ⟨hle', hless'⟩
    refine ⟨Nat.le_trans hle' hle, ?_⟩
    rintro ⟨page, hpage, hnext⟩
    rw [deliveries_append, List.mem_append] at hpage
    obtain hpage | hpage := hpage
    · exact Nat.lt_of_le_of_lt hle' (hless ⟨page, hpage, hnext⟩)
    · exact Nat.lt_of_lt_of_le (hless' ⟨page, hpage, hnext⟩) hle

variable {g : Gateway σ}

namespace Dwindles

theorem exists_answer (h : g.Dwindles) (request : Request) (s : σ) :
    ∃ u, g.store.horizon u ≤ g.store.horizon s ∧
      (g.submit request s).outcome = .ofExcept (g.store.answer request u).1 ∧
      (g.submit request s).store = (g.store.answer request u).2 :=
  (tried_submit g request s).exists_last (I := fun u => g.store.horizon u ≤ g.store.horizon s)
    (fun u detail t hu hanswer => by
      have hle := h.answer request u
      rw [hanswer] at hle
      exact Nat.le_trans hle hu)
    (Nat.le_refl _)

theorem lt_of_submit (h : g.Dwindles) {request : Request} {s : σ} {reply : request.Reply}
    (hdone : (g.submit request s).outcome = .done reply)
    (hmore : ∀ u t, g.store.answer request u = (.ok reply, t) →
      g.store.horizon t < g.store.horizon u) :
    g.store.horizon (g.submit request s).store < g.store.horizon s := by
  obtain ⟨u, hu, houtcome, hstore⟩ := h.exists_answer request s
  have hreply := Outcome.ofExcept_eq_done.mp (houtcome.symm.trans hdone)
  rw [hstore]
  exact Nat.lt_of_lt_of_le (hmore u _ (Prod.ext hreply rfl)) hu

theorem submit (h : g.Dwindles) (request : Request) :
    (g.submit request).Passes (fun _ => True) g.Spends := by
  intro s _
  obtain ⟨u, hu, houtcome, hstore⟩ := h.exists_answer request s
  refine ⟨?_, trivial, ?_, ?_⟩
  · rw [houtcome]
    exact Outcome.ofExcept_ne_unfinished
  · rw [hstore]
    exact Nat.le_trans (h.answer request u) hu
  · simp [(tried_submit g request s).deliveries_eq]

theorem readFrom (h : g.Dwindles) (prev : Option (Option Item)) (read : Read) :
    (g.readFrom prev read).Passes (fun _ => True) g.Spends := by
  intro s _
  refine (g.paged_pages _ prev read s).passes g.passage_spends h.submit
    (fun _ s => g.store.horizon s) ?_ trivial (Nat.lt_succ_self _)
  intro read s page t events prev _ hsubmit handedOut
  have hspends := (h.submit (.read read) s trivial).way
  have hvisit := h.visit handedOut t
  have hless : page.lastKey ≠ none →
      g.store.horizon (g.visit handedOut t) < g.store.horizon s := by
    intro hkey
    have := h.lt_of_submit (congrArg Ran.outcome hsubmit) fun u t hanswer => h.page hanswer hkey
    rw [hsubmit] at this
    exact Nat.lt_of_le_of_lt hvisit this
  rw [hsubmit] at hspends
  refine ⟨trivial, ⟨Nat.le_trans hvisit hspends.1, ?_⟩, fun key limit hkey => ?_⟩
  · rintro ⟨other, hother, hnext⟩
    rw [deliveries_append, List.mem_append] at hother
    obtain hother | hother := hother
    · exact Nat.lt_of_le_of_lt hvisit (hspends.2 ⟨other, hother, hnext⟩)
    · cases List.mem_singleton.mp hother
      refine hless fun hkey => hnext ?_
      exact Option.map_eq_none_iff.mpr hkey
  · exact hless (by simp [hkey])

theorem passes (h : g.Dwindles) : g.Passes (fun _ => True) g.Spends where
  submit := h.submit
  readFrom := h.readFrom
  writeOne _ _ _ :=
    writeRounds_passed g.passage_spends h.submit (fun _ s => g.store.horizon s)
      (fun _ hdone hne => h.lt_of_submit hdone fun _ _ hanswer => h.unwritten hanswer hne) trivial
      fun hne => Nat.lt_add_of_pos_right (List.length_pos_iff.mpr hne)
  getOne _ _ _ :=
    getRounds_passed g.passage_spends h.submit (fun _ s => g.store.horizon s)
      (fun _ hdone hne => h.lt_of_submit hdone fun _ _ hanswer => h.unfound hanswer hne) trivial
      fun hne => Nat.lt_add_of_pos_right (List.length_pos_iff.mpr hne)

end Dwindles

end Gateway

def Happening.leavesSome : Happening → Bool
  | .exchanged (.read _) (.ok page) => page.lastKey.isSome
  | .exchanged (.writeBatch _ _) (.ok unprocessed) => !unprocessed.isEmpty
  | .exchanged (.getBatch _ _) (.ok found) => !found.unprocessed.isEmpty
  | .exchanged _ _ | .emitted _ => false

theorem Gateway.Dwindles.countP_leavesSome {g : Gateway σ} (h : g.Dwindles) {s t : σ}
    {whole : List Happening} (hfollows : g.Follows s whole t) :
    whole.countP Happening.leavesSome + g.store.horizon t ≤ g.store.horizon s := by
  induction hfollows with
  | nothing => simp
  | @exchanged s t _ request result whole hanswer _ ih =>
    have hle : g.store.horizon t ≤ g.store.horizon s := by
      have := h.answer request s
      rwa [hanswer] at this
    by_cases hleaves : Happening.leavesSome (.exchanged request result)
    · have hless : g.store.horizon t < g.store.horizon s := by
        unfold Happening.leavesSome at hleaves
        split at hleaves
        next heq =>
          cases heq
          exact h.page hanswer (Option.ne_none_iff_isSome.mpr hleaves)
        next heq =>
          cases heq
          exact h.unwritten hanswer (by simpa using hleaves)
        next heq =>
          cases heq
          exact h.unfound hanswer (by simpa using hleaves)
        all_goals cases hleaves
      rw [List.countP_cons_of_pos hleaves]
      omega
    · rw [List.countP_cons_of_neg hleaves]
      omega
  | @emitted s _ event whole _ ih =>
    have hle : g.store.horizon (g.receive event s) ≤ g.store.horizon s := by
      cases event with
      | delivered page => exact h.visit page s
      | asked | waited | logged => exact Nat.le_refl _
    rw [List.countP_cons_of_neg (by simp [Happening.leavesSome])]
    omega

namespace Batching

variable {α : Type} {batching : Batching α} {retry : RetryPolicy}

def SeesLeft (batching : Batching α) : Prop :=
  ∀ {pending : List α} {reply : (batching.request pending).Reply}, batching.left reply ≠ [] →
    Happening.leavesSome (.exchanged (batching.request pending) (.ok reply))

theorem Rounds.le_countP_leavesSome {rounds : Nat} {pending : List α} {own : List Happening}
    {outcome : Outcome (List Item)} (h : batching.Rounds retry rounds pending own outcome)
    (hsees : batching.SeesLeft) (houtcome : outcome = .unfinished) :
    rounds ≤ own.countP Happening.leavesSome := by
  induction h with
  | nothing | refused => cases houtcome
  | cutOff => exact Nat.zero_le _
  | @answered rounds _ own reply rest outcome _ hattempted hrest ih =>
    obtain rfl : outcome = .unfinished := by
      cases outcome with
      | unfinished => rfl
      | done | failed => cases houtcome
    have hleft : batching.left reply ≠ [] := by
      intro hnil
      rw [hnil] at hrest
      cases hrest.of_nil.2
    have hown : 0 < own.countP Happening.leavesSome :=
      List.countP_pos_iff.mpr ⟨_, hattempted.last_mem, hsees hleft⟩
    have := ih rfl
    rw [List.countP_append]
    omega

theorem Rounds.ne_unfinished_of_dwindles {g : Gateway σ} (hdwindles : g.Dwindles)
    (hsees : batching.SeesLeft) {s t u : σ} {whole own : List Happening}
    (hfollows : g.Follows s whole t) (hbegun : g.Begun s whole u own) {pending : List α}
    {outcome : Outcome (List Item)}
    (h : batching.Rounds retry (g.store.horizon u + pending.length) pending own outcome) :
    outcome ≠ .unfinished := by
  intro houtcome
  obtain ⟨before, after, rfl, hbefore, hown⟩ := hbegun
  have hspent := hdwindles.countP_leavesSome (hfollows.of_append hbefore)
  have hcount := hown.countP_le (p := Happening.leavesSome)
  have hrounds := h.le_countP_leavesSome hsees houtcome
  have hnone : pending = [] := List.eq_nil_of_length_eq_zero (by omega)
  subst hnone
  cases houtcome.symm.trans h.of_nil.2

end Batching

namespace Gateway

variable {g : Gateway σ}

namespace PageByPage

variable {rounds : Nat} {prev : Option (Option Item)} {read : Read} {own : List Happening}
  {outcome : Outcome Unit}

theorem le_countP_leavesSome (h : g.PageByPage rounds prev read own outcome)
    (houtcome : outcome = .unfinished) : rounds ≤ own.countP Happening.leavesSome := by
  induction h with
  | cutOff => exact Nat.zero_le _
  | refused | last => cases houtcome
  | @more rounds _ _ own _ _ rest _ page hattempted hkey _ _ ih =>
    have hown : 0 < own.countP Happening.leavesSome :=
      List.countP_pos_iff.mpr ⟨_, hattempted.last_mem, Option.isSome_of_eq_some hkey⟩
    have := ih houtcome
    rw [List.countP_append, List.countP_cons_of_neg (by simp [Happening.leavesSome])]
    omega

theorem exists_leavesSome (h : g.PageByPage rounds prev read own outcome) {page : Delivery}
    (hpage : page ∈ deliveries (own.map Happening.event)) (hnext : page.next ≠ none) :
    ∃ happening ∈ own, happening.leavesSome := by
  induction h with
  | cutOff => cases hpage
  | refused hattempted => simp [hattempted.deliveries_eq] at hpage
  | @last _ prev read _ last hattempted =>
    rw [List.map_append, deliveries_append, hattempted.deliveries_eq, List.nil_append] at hpage
    obtain rfl : page = delivery g.table prev read last := List.mem_singleton.mp hpage
    have hkey : last.lastKey ≠ none := fun hnone => hnext (Option.map_eq_none_iff.mpr hnone)
    exact ⟨_, List.mem_append_left _ hattempted.last_mem, Option.ne_none_iff_isSome.mp hkey⟩
  | more hattempted hkey _ _ ih =>
    exact ⟨_, List.mem_append_left _ hattempted.last_mem, Option.isSome_of_eq_some hkey⟩

end PageByPage

theorem Dwindles.scanTogether (h : g.Dwindles) (pauses : Pauses) (schedule : List Nat)
    (segments : Nat) (options : ScanOptions) (start : Option (List (Option Item))) :
    (g.scanTogether pauses schedule segments options start).Passes (fun _ => True) g.Spends := by
  intro s _
  cases hreads : g.scanReads segments options start with
  | error error =>
    rw [scanTogether_of_error _ s pauses schedule hreads]
    exact ⟨by simp, trivial, g.passage_spends.nothing s⟩
  | ok reads =>
    obtain ⟨parts, whole, hparted⟩ := g.exists_parted_scanTogether s pauses schedule hreads
    have hspent := h.countP_leavesSome hparted.follows
    refine ⟨hparted.ne_unfinished fun part hpart hunfinished => ?_, trivial, by omega, ?_⟩
    · obtain ⟨read, -, u, ⟨before, after, rfl, hbefore, hown⟩, hpages⟩ :=
        exists_of_forall₂_right hparted.pageByPage hpart
      have hrest := h.countP_leavesSome (hparted.follows.of_append hbefore)
      have hcount := hown.countP_le (p := Happening.leavesSome)
      have hrounds := hpages.le_countP_leavesSome hunfinished
      omega
    · rintro ⟨page, hpage, hnext⟩
      obtain ⟨read, -, rounds, own, outcome, hpages, hown, hpage⟩ :=
        hparted.exists_of_delivered hpage
      obtain ⟨happening, hmem, hleaves⟩ := hpages.exists_leavesSome hpage hnext
      have hcount := List.countP_pos_iff.mpr ⟨happening, hown.subset hmem, hleaves⟩
      omega

end Gateway

/-! Clients that have less to say with every answer that leaves something. -/

def Call.LeavesSome : (call : Call) → call.Answer → Prop
  | .getItem _ _, _ | .putItem _, _ => False
  | .batchWriteItem tables, unprocessed => ∃ table ∈ tables, listed unprocessed table.1 ≠ []
  | .batchGetItem tables, answer => ∃ table ∈ tables, listed answer.unprocessed table.1 ≠ []
  | .query _ _ _, answer | .scan _ _ _, answer => nonEmpty answer.lastKey ≠ none

structure Client.Dwindles (client : Client σ) (horizon : σ → Nat) : Prop where
  le : ∀ call s, horizon (client call s).2 ≤ horizon s
  lt : ∀ {call s answer t}, client call s = (.ok answer, t) → call.LeavesSome answer →
    horizon t < horizon s

theorem Client.Dwindles.recorded {client : Client σ} {horizon : σ → Nat}
    (h : client.Dwindles horizon) : client.recorded.Dwindles fun s => horizon s.1 where
  le call s := h.le call s.1
  lt {call s answer t} hrecorded hleaves := by
    obtain ⟨hanswer, rfl⟩ := Prod.mk.inj hrecorded
    exact h.lt (Prod.ext hanswer rfl) hleaves

theorem Gateway.dwindles_ofClient {client : Client σ} {horizon : σ → Nat}
    (h : client.Dwindles horizon) {visit : Delivery → σ → σ}
    (hvisit : ∀ page s, horizon (visit page s) ≤ horizon s) (table : Table) (retry : RetryPolicy) :
    Gateway.Dwindles ⟨.ofClient client horizon, table, retry, visit⟩ where
  answer request s := by
    show horizon ((Store.ofClient client horizon).answer request s).2 ≤ horizon s
    cases hcalling : request.calling with
    | error error => rw [Store.ofClient_of_error hcalling]
    | ok calling =>
      rw [Store.ofClient_of_calling hcalling]
      exact h.le calling.call s
  visit := hvisit
  page {read s page t} hreply hkey := by
    obtain ⟨calling, answer, hcalling, hanswer, rfl⟩ := Store.ofClient_of_ok hreply
    cases Read.calls_of_calling hcalling with
    | query | scan => exact h.lt hanswer hkey
  unwritten {name entries s unprocessed t} hreply hne := by
    obtain ⟨calling, answer, hcalling, hanswer, rfl⟩ := Store.ofClient_of_ok hreply
    cases hcalling
    have hlisted : listed answer name ≠ [] := fun hnone =>
      hne (congrArg (List.filterMap WriteCall.write?) hnone)
    have hleaves : Call.LeavesSome (.batchWriteItem [(name, entries.map .ofEntry)]) answer :=
      Exists.intro (name, _) ⟨List.mem_singleton_self _, hlisted⟩
    exact h.lt hanswer hleaves
  unfound {name keys s found t} hreply hne := by
    obtain ⟨calling, answer, hcalling, hanswer, rfl⟩ := Store.ofClient_of_ok hreply
    cases hcalling
    have hleaves : Call.LeavesSome (.batchGetItem [(name, keys)]) answer :=
      Exists.intro (name, keys) ⟨List.mem_singleton_self _, hne⟩
    exact h.lt hanswer hleaves

theorem Wire.dwindles_client : Wire.client.Dwindles fun c => c.answers.length where
  le call c := by
    rw [Wire.client]
    split
    · exact c.answers.length_tail.trans_le (Nat.sub_le ..)
    · exact Nat.le_refl _
  lt {call c answer d} hclient hleaves := by
    unfold client at hclient
    split at hclient
    · obtain ⟨hanswer, rfl⟩ := Prod.mk.inj hclient
      cases hc : c.answers with
      | nil =>
        rw [hc] at hanswer
        cases call with
        | getItem | putItem => exact hleaves.elim
        | batchWriteItem | batchGetItem =>
          cases hanswer
          obtain ⟨_, -, hne⟩ := hleaves
          exact absurd rfl hne
        | query | scan =>
          cases hanswer
          exact absurd rfl hleaves
      | cons first others => exact Nat.lt_succ_self _
    · cases hclient

def Gateway.wire (table : Table) (retry : RetryPolicy) : Gateway Wire.Connection :=
  ⟨Store.wire, table, retry, fun _ c => c⟩

theorem Gateway.dwindles_wire (table : Table) (retry : RetryPolicy) :
    (Gateway.wire table retry).Dwindles :=
  dwindles_ofClient Wire.dwindles_client (fun _ _ => Nat.le_refl _) table retry

end KeyedTable
