import KeyedTable.Proofs.Batch.Cutting
import KeyedTable.Proofs.Gateway.Attempted

namespace KeyedTable

variable {σ α β : Type}

/-- Lists that go out in requests of one kind, and what a reply says of them. -/
structure Batching (α : Type) where
  request : List α → Request
  left : ∀ {pending}, (request pending).Reply → List α
  found : ∀ {pending}, (request pending).Reply → List Item

namespace Batching

def writes (table : String) : Batching WriteEntry where
  request := .writeBatch table
  left unprocessed := unprocessed
  found _ := []

def gets (table : String) : Batching Item where
  request := .getBatch table
  left found := found.unprocessed
  found found := found.items

inductive Rounds (batching : Batching α) (retry : RetryPolicy) :
    Nat → List α → List Happening → Outcome (List Item) → Prop
  | nothing {rounds} : Rounds batching retry rounds [] [] (.done [])
  | cutOff {pending} : pending ≠ [] → Rounds batching retry 0 pending [] .unfinished
  | refused {rounds pending own error} : pending ≠ [] →
      Attempted retry (batching.request pending) retry.maxRetries 0 own (.error error) →
      Rounds batching retry (rounds + 1) pending own (.failed error)
  | answered {rounds pending own reply rest outcome} : pending ≠ [] →
      Attempted retry (batching.request pending) retry.maxRetries 0 own (.ok reply) →
      Rounds batching retry rounds (batching.left reply) rest outcome →
      Rounds batching retry (rounds + 1) pending (own ++ rest)
        (outcome.map (batching.found reply ++ ·))

end Batching

open Batching

namespace Task.Goes

variable {g : Gateway σ} {pauses : Pauses} {rounds : Nat} {own : List Happening}

theorem rounds_of_writing {entries : List WriteEntry} {outcome : Outcome Unit}
    (h : (g.writing pauses rounds entries).Goes own outcome) :
    ∃ whole, (writes g.table.name).Rounds g.retry rounds entries own whole ∧
      outcome = whole.map fun _ => () := by
  induction rounds generalizing entries own with
  | zero =>
    cases entries with
    | nil =>
      cases h
      exact ⟨_, .nothing, rfl⟩
    | cons entry entries =>
      cases h
      exact ⟨_, .cutOff (List.cons_ne_nil entry entries), rfl⟩
  | succ rounds ih =>
    cases entries with
    | nil =>
      cases h
      exact ⟨_, .nothing, rfl⟩
    | cons entry entries =>
      have hne := List.cons_ne_nil entry entries
      obtain ⟨reply, first, rest, rfl, hfirst, hrest⟩ | ⟨error, rfl, hfailed⟩ := of_submit h
      · obtain ⟨whole, hwhole, rfl⟩ := ih hrest
        refine ⟨_, .answered hne hfirst hwhole, ?_⟩
        cases whole <;> rfl
      · exact ⟨_, .refused hne hfailed, rfl⟩

theorem rounds_of_getting {keys : List Item} {outcome : Outcome (List Item)}
    (h : (g.getting pauses rounds keys).Goes own outcome) :
    (gets g.table.name).Rounds g.retry rounds keys own outcome := by
  induction rounds generalizing keys own outcome with
  | zero =>
    cases keys with
    | nil =>
      cases h
      exact .nothing
    | cons key keys =>
      cases h
      exact .cutOff (List.cons_ne_nil key keys)
  | succ rounds ih =>
    cases keys with
    | nil =>
      cases h
      exact .nothing
    | cons key keys =>
      have hne := List.cons_ne_nil key keys
      obtain ⟨found, first, rest, rfl, hfirst, hrest⟩ | ⟨error, rfl, hfailed⟩ := of_submit h
      · obtain ⟨items, own, last, rfl, hown, hlast⟩ | ⟨error, rfl, hown⟩ | ⟨rfl, hown⟩ :=
          hrest.of_bind
        · cases hlast
          rw [List.append_nil]
          exact .answered hne hfirst (ih hown)
        · have hfailed := Rounds.answered hne hfirst (ih hown)
          exact hfailed
        · have hcut := Rounds.answered hne hfirst (ih hown)
          exact hcut
      · exact .refused hne hfailed

end Task.Goes

def Batching.Leaves (batching : Batching α) (own : List Happening) : Prop :=
  ∀ ⦃pending : List α⦄ ⦃reply : (batching.request pending).Reply⦄,
    .exchanged (batching.request pending) (.ok reply) ∈ own → pending ≠ [] →
    batching.left reply <:+ pending ∧ (batching.left reply).length < pending.length

namespace Batching

variable {batching : Batching α} {retry : RetryPolicy} {rounds : Nat} {pending : List α}
  {own first rest : List Happening} {outcome : Outcome (List Item)}

theorem Leaves.of_subset (h : batching.Leaves own) (hfirst : first ⊆ own) :
    batching.Leaves first := fun _ _ hmem => h (hfirst hmem)

namespace Rounds

theorem of_nil (h : batching.Rounds retry rounds [] own outcome) :
    own = [] ∧ outcome = .done [] := by
  generalize hpending : ([] : List α) = pending at h
  cases h with
  | nothing => exact ⟨rfl, rfl⟩
  | cutOff hne | refused hne | answered hne => exact absurd hpending.symm hne

theorem exists_sent (h : batching.Rounds retry rounds pending own outcome) {request : Request}
    {result : Except Error request.Reply} (hmem : .exchanged request result ∈ own) :
    ∃ sent, request = batching.request sent := by
  induction h with
  | nothing | cutOff => cases hmem
  | refused _ hattempted => exact ⟨_, hattempted.asked hmem⟩
  | answered _ hattempted _ ih =>
    exact (List.mem_append.mp hmem).elim (fun hmem => ⟨_, hattempted.asked hmem⟩) ih

theorem asked (h : batching.Rounds retry rounds pending own outcome) (hleaves : batching.Leaves own)
    {request : Request} {result : Except Error request.Reply}
    (hmem : .exchanged request result ∈ own) :
    ∃ sent, request = batching.request sent ∧ sent ≠ [] ∧ sent <:+ pending := by
  induction h with
  | nothing | cutOff => cases hmem
  | @refused _ pending _ _ hne hattempted =>
    exact ⟨pending, hattempted.asked hmem, hne, List.suffix_rfl⟩
  | @answered _ pending own _ rest _ hne hattempted _ ih =>
    obtain hmem | hmem := List.mem_append.mp hmem
    · exact ⟨pending, hattempted.asked hmem, hne, List.suffix_rfl⟩
    · obtain ⟨hsuffix, -⟩ := hleaves (List.mem_append_left rest hattempted.last_mem) hne
      obtain ⟨sent, hrequest, hsent, hlast⟩ :=
        ih (hleaves.of_subset (List.subset_append_right own rest)) hmem
      exact ⟨sent, hrequest, hsent, hlast.trans hsuffix⟩

theorem ne_unfinished (h : batching.Rounds retry rounds pending own outcome)
    (hleaves : batching.Leaves own) (hrounds : pending.length ≤ rounds) :
    outcome ≠ .unfinished := by
  induction h with
  | nothing | refused => nofun
  | cutOff hne => exact absurd (List.eq_nil_of_length_eq_zero (Nat.le_zero.mp hrounds)) hne
  | @answered _ pending own reply rest outcome hne hattempted _ ih =>
    obtain ⟨-, hless⟩ := hleaves (List.mem_append_left rest hattempted.last_mem) hne
    have hrest := ih (hleaves.of_subset (List.subset_append_right own rest)) (by omega)
    cases outcome with
    | done | failed => nofun
    | unfinished => exact absurd rfl hrest

theorem emitted (h : batching.Rounds retry rounds pending own outcome) {event : Event}
    (hmem : .emitted event ∈ own) : event.IsQuiet := by
  induction h with
  | nothing | cutOff => cases hmem
  | refused _ hattempted => exact hattempted.emitted hmem
  | answered _ hattempted _ ih =>
    exact (List.mem_append.mp hmem).elim hattempted.emitted ih

theorem countP_pos_of_waited (h : batching.Rounds retry rounds pending own outcome)
    {milliseconds : Nat} (hmem : .emitted (.waited milliseconds) ∈ own) :
    0 < own.countP Happening.throttles := by
  induction h with
  | nothing | cutOff => cases hmem
  | refused _ hattempted => exact hattempted.countP_pos_of_waited hmem
  | answered _ hattempted _ ih =>
    rw [List.countP_append]
    obtain hmem | hmem := List.mem_append.mp hmem
    · exact Nat.add_pos_left (hattempted.countP_pos_of_waited hmem) _
    · exact Nat.add_pos_right _ (ih hmem)

theorem exists_refused {error : Error}
    (h : batching.Rounds retry rounds pending own (.failed error)) :
    ∃ sent first, first.Sublist own ∧
      Attempted retry (batching.request sent) retry.maxRetries 0 first (.error error) := by
  generalize houtcome : (.failed error : Outcome (List Item)) = outcome at h
  induction h with
  | nothing | cutOff => cases houtcome
  | @refused _ pending own _ _ hattempted =>
    cases houtcome
    exact ⟨pending, own, List.Sublist.refl _, hattempted⟩
  | @answered _ _ own _ rest outcome _ _ _ ih =>
    have hfailed : .failed error = outcome := by
      cases outcome with
      | failed other => cases houtcome; rfl
      | done | unfinished => cases houtcome
    obtain ⟨sent, first, hsublist, hattempted⟩ := ih hfailed
    exact ⟨sent, first, hsublist.trans (List.sublist_append_right own rest), hattempted⟩

end Rounds

section Blocks

variable {f : List Item → β} {blocks : List (List α)} {parts : List (Part β)}
  {whole : List Happening}

def Blocks (batching : Batching α) (retry : RetryPolicy) (f : List Item → β)
    (blocks : List (List α)) (parts : List (Part β)) : Prop :=
  List.Forall₂ (fun block part => ∃ rounds items, block.length ≤ rounds ∧
    batching.Rounds retry rounds block part.own items ∧ part.outcome = items.map f) blocks parts

namespace Blocks

theorem exists_of_mem (h : batching.Blocks retry f blocks parts)
    (hmerges : Merges (parts.map Part.own) whole) {happening : Happening}
    (hmem : happening ∈ whole) :
    ∃ block ∈ blocks, ∃ rounds own items, batching.Rounds retry rounds block own items ∧
      own.Sublist whole ∧ happening ∈ own := by
  obtain ⟨_, hown, hmem⟩ := hmerges.mem_iff.mp hmem
  obtain ⟨part, hpart, rfl⟩ := List.mem_map.mp hown
  obtain ⟨block, hblock, rounds, items, -, hrounds, -⟩ := exists_of_forall₂_right h hpart
  exact ⟨block, hblock, rounds, _, items, hrounds, hmerges.sublist _ hown, hmem⟩

theorem exists_sent (h : batching.Blocks retry f blocks parts)
    (hmerges : Merges (parts.map Part.own) whole) {request : Request}
    {result : Except Error request.Reply} (hmem : .exchanged request result ∈ whole) :
    ∃ sent, request = batching.request sent := by
  obtain ⟨block, -, rounds, own, items, hrounds, -, hmem⟩ := h.exists_of_mem hmerges hmem
  exact hrounds.exists_sent hmem

theorem asked (h : batching.Blocks retry f blocks parts)
    (hmerges : Merges (parts.map Part.own) whole) (hleaves : batching.Leaves whole)
    {request : Request} {result : Except Error request.Reply}
    (hmem : .exchanged request result ∈ whole) :
    ∃ block ∈ blocks, ∃ sent, request = batching.request sent ∧ sent ≠ [] ∧ sent <:+ block := by
  obtain ⟨block, hblock, rounds, own, items, hrounds, hown, hmem⟩ := h.exists_of_mem hmerges hmem
  exact ⟨block, hblock, hrounds.asked (hleaves.of_subset hown.subset) hmem⟩

theorem emitted (h : batching.Blocks retry f blocks parts)
    (hmerges : Merges (parts.map Part.own) whole) {event : Event}
    (hmem : .emitted event ∈ whole) : event.IsQuiet := by
  obtain ⟨block, -, rounds, own, items, hrounds, -, hmem⟩ := h.exists_of_mem hmerges hmem
  exact hrounds.emitted hmem

theorem ne_unfinished (h : batching.Blocks retry f blocks parts)
    (hmerges : Merges (parts.map Part.own) whole) (hleaves : batching.Leaves whole) :
    ∀ part ∈ parts, part.outcome ≠ .unfinished := by
  intro part hpart
  obtain ⟨block, -, rounds, items, hlt, hrounds, houtcome⟩ := exists_of_forall₂_right h hpart
  have hsublist := hmerges.sublist _ (List.mem_map_of_mem hpart)
  have hends := hrounds.ne_unfinished (hleaves.of_subset hsublist.subset) hlt
  rw [houtcome]
  cases items with
  | done | failed => exact nofun
  | unfinished => exact absurd rfl hends

end Blocks

end Blocks

end Batching

namespace Gateway.Parted

variable {g : Gateway σ} {s : σ} {pauses : Pauses} {ran : Ran σ β} {whole : List Happening}

theorem writeRounds {blocks : List (List WriteEntry)} {parts : List (Part Unit)}
    {gather : List Unit → β}
    (h : g.Parted s (blocks.map (g.writeStart pauses)) gather ran parts whole) :
    List.Forall₂ (fun block part => ∃ u items, g.Begun s whole u part.own ∧
      (writes g.table.name).Rounds g.retry (g.store.horizon u + block.length) block part.own
        items ∧
      part.outcome = items.map fun _ => ()) blocks parts := by
  refine (List.forall₂_map_left_iff.mp h.starts).imp fun block part ⟨u, hu, hpart⟩ => ?_
  obtain ⟨items, hrounds, houtcome⟩ := Task.Goes.rounds_of_writing hpart
  exact ⟨u, items, hu, hrounds, houtcome⟩

theorem getRounds {blocks : List (List Item)} {parts : List (Part (List Item))}
    {gather : List (List Item) → β}
    (h : g.Parted s (blocks.map (g.getStart pauses)) gather ran parts whole) :
    List.Forall₂ (fun block part => ∃ u items, g.Begun s whole u part.own ∧
      (gets g.table.name).Rounds g.retry (g.store.horizon u + block.length) block part.own items ∧
      part.outcome = items.map id) blocks parts := by
  refine (List.forall₂_map_left_iff.mp h.starts).imp fun block part ⟨u, hu, hpart⟩ => ?_
  refine ⟨u, part.outcome, hu, Task.Goes.rounds_of_getting hpart, ?_⟩
  cases part.outcome <;> rfl

theorem writeBlocks {blocks : List (List WriteEntry)} {parts : List (Part Unit)}
    {gather : List Unit → β}
    (h : g.Parted s (blocks.map (g.writeStart pauses)) gather ran parts whole) :
    (writes g.table.name).Blocks g.retry (fun _ => ()) blocks parts :=
  h.writeRounds.imp fun _ _ ⟨_, items, _, hrounds, houtcome⟩ =>
    ⟨_, items, Nat.le_add_left _ _, hrounds, houtcome⟩

theorem getBlocks {blocks : List (List Item)} {parts : List (Part (List Item))}
    {gather : List (List Item) → β}
    (h : g.Parted s (blocks.map (g.getStart pauses)) gather ran parts whole) :
    (gets g.table.name).Blocks g.retry id blocks parts :=
  h.getRounds.imp fun _ _ ⟨_, items, _, hrounds, houtcome⟩ =>
    ⟨_, items, Nat.le_add_left _ _, hrounds, houtcome⟩

end Gateway.Parted

end KeyedTable
