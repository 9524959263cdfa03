import KeyedTable.Proofs.Batch.Rounds
import KeyedTable.Proofs.Memory.Changes

namespace KeyedTable

namespace Memory

variable {m : Memory} {entries : List WriteEntry}

theorem applyEntries_of_fits (h : ∀ entry ∈ entries, entry.Fits m.table) :
    m.applyEntries entries =
      (.ok (), { m with items := entries.foldl (WriteEntry.apply m.table) m.items }) := by
  induction entries generalizing m with
  | nil => rfl
  | cons entry entries ih =>
    obtain ⟨hentry, hentries⟩ := List.forall_mem_cons.mp h
    cases entry with
    | put item => exact ih hentries
    | delete key =>
      rw [applyEntries, if_neg fun hne => hne hentry]
      exact ih hentries

theorem serve_writeBatch (h : ∀ entry ∈ entries, entry.Fits m.table) (table : String) :
    m.serve (.writeBatch table entries) =
      (.ok (entries.drop (m.processed entries.length)),
        { m with
          halving := m.halving - 1
          items := (entries.take (m.processed entries.length)).foldl
            (WriteEntry.apply m.table) m.items }) := by
  have htaken : ∀ entry ∈ entries.take (m.processed entries.length), entry.Fits m.table :=
    fun entry hentry => h entry (List.mem_of_mem_take hentry)
  have happlied := applyEntries_of_fits (m := { m with halving := m.halving - 1 }) htaken
  simp only [serve, writeBatch, happlied]
  rfl

def exchange : (request : Request) → Except Error request.Reply →
    List (List WriteEntry × List WriteEntry)
  | .writeBatch _ entries, .ok unprocessed => [(entries, unprocessed)]
  | _, _ => []

/-- The batch writes that are served when the requests of the events come in, and the table after
them. -/
def exchanges (m : Memory) : List Event → List (List WriteEntry × List WriteEntry) × Memory
  | [] => ([], m)
  | .asked request _ :: events =>
    let rest := (m.answer request).2.exchanges events
    (exchange request (m.answer request).1 ++ rest.1, rest.2)
  | _ :: events => m.exchanges events

theorem exchanges_append (m : Memory) (before after : List Event) :
    m.exchanges (before ++ after) =
      ((m.exchanges before).1 ++ ((m.exchanges before).2.exchanges after).1,
        ((m.exchanges before).2.exchanges after).2) := by
  induction before generalizing m with
  | nil => rfl
  | cons event before ih =>
    cases event with
    | asked request refusal => simp only [List.cons_append, exchanges, ih, List.append_assoc]
    | _ => exact ih m

theorem check_writeBatch (hne : entries ≠ []) (hsize : entries.length ≤ writeBatchSize) :
    m.check (.writeBatch m.table.name entries) = .ok () := by
  have hnot : ¬ writeBatchSize < entries.length := Nat.not_lt.mpr hsize
  simp [check, Request.table, checkShape, hne, hnot]

theorem answer_writeBatch (hfailing : m.failing = 0) (hne : entries ≠ [])
    (hsize : entries.length ≤ writeBatchSize) (hfits : ∀ entry ∈ entries, entry.Fits m.table) :
    (∃ after, m.answer (.writeBatch m.table.name entries) =
        (.error (.throttled throttledDetail), after) ∧
        after.table = m.table ∧ after.failing = 0) ∨
      ∃ k after, m.answer (.writeBatch m.table.name entries) = (.ok (entries.drop k), after) ∧
        after.table = m.table ∧ after.failing = 0 := by
  have hcheck := check_writeBatch (m := m) hne hsize
  cases hcount : m.throttling with
  | zero =>
    have hserve := serve_writeBatch (m := m.count (.writeBatch m.table.name entries)) hfits
      m.table.name
    exact .inr ⟨_, _, (answer_served hcheck hfailing hcount).trans hserve, rfl, hfailing⟩
  | succ count => exact .inl ⟨_, answer_throttled hcheck hfailing hcount, rfl, hfailing⟩

end Memory

def Happening.taken : Happening → List WriteEntry
  | .exchanged (.writeBatch _ entries) (.ok unprocessed) =>
    entries.take (entries.length - unprocessed.length)
  | .exchanged _ _ | .emitted _ => []

def Happening.exchange : Happening → List (List WriteEntry × List WriteEntry)
  | .exchanged request result => Memory.exchange request result
  | .emitted _ => []

/-- Each list is what the one before left behind, and the last one leaves nothing. -/
inductive Resubmitted : List WriteEntry → List (List WriteEntry × List WriteEntry) → Prop
  | nothing : Resubmitted [] []
  | round {entries unprocessed rounds} : Resubmitted unprocessed rounds →
      Resubmitted entries ((entries, unprocessed) :: rounds)

theorem take_append_of_suffix {α : Type} {xs ys : List α} (h : ys <:+ xs) :
    xs.take (xs.length - ys.length) ++ ys = xs := by
  obtain ⟨before, rfl⟩ := h
  rw [List.length_append, Nat.add_sub_cancel, List.take_left]

namespace Batching.Rounds

variable {table : String} {retry : RetryPolicy} {rounds : Nat} {entries : List WriteEntry}
  {own : List Happening} {items : List Item}

theorem taken (h : (writes table).Rounds retry rounds entries own (.done items))
    (hleaves : (writes table).Leaves own) :
    own.flatMap Happening.taken = entries ∧
      Resubmitted entries (own.flatMap Happening.exchange) := by
  generalize houtcome : (.done items : Outcome (List Item)) = outcome at h
  induction h generalizing items with
  | nothing => exact ⟨rfl, .nothing⟩
  | cutOff | refused => cases houtcome
  | @answered _ entries own unprocessed rest outcome hne hattempted _ ih =>
    obtain ⟨found, rfl, -⟩ := Outcome.map_eq_done_iff.mp houtcome.symm
    obtain ⟨htaken, hresubmitted⟩ :=
      ih (hleaves.of_subset (List.subset_append_right own rest)) rfl
    obtain ⟨hsuffix, -⟩ := hleaves (List.mem_append_left rest hattempted.last_mem) hne
    have hfirst : own.flatMap Happening.taken =
        entries.take (entries.length - List.length unprocessed) :=
      hattempted.flatMap_eq (fun _ => rfl) fun _ => rfl
    have hround : own.flatMap Happening.exchange = [(entries, unprocessed)] :=
      hattempted.flatMap_eq (fun _ => rfl) fun _ => rfl
    rw [List.flatMap_append, List.flatMap_append, hfirst, htaken, hround]
    exact ⟨take_append_of_suffix hsuffix, .round hresubmitted⟩

theorem throttled_of_done (h : (writes table).Rounds retry rounds entries own (.done items))
    {request : Request} {error : Error} (hmem : .exchanged request (.error error) ∈ own) :
    error.isThrottling := by
  generalize houtcome : (.done items : Outcome (List Item)) = outcome at h
  induction h generalizing items with
  | nothing | cutOff => cases hmem
  | refused => cases houtcome
  | @answered _ _ own _ rest outcome _ hattempted _ ih =>
    obtain ⟨found, rfl, -⟩ := Outcome.map_eq_done_iff.mp houtcome.symm
    obtain hmem | hmem := List.mem_append.mp hmem
    · obtain rfl := hattempted.asked hmem
      obtain hlast | ⟨detail, hdetail⟩ := hattempted.settled_or_throttled hmem
      · cases hlast
      · cases hdetail
        rfl
    · exact ih hmem rfl

end Batching.Rounds

theorem Batching.Blocks.taken_of_done {table : String} {retry : RetryPolicy}
    {blocks : List (List WriteEntry)} {parts : List (Part Unit)} {whole : List Happening}
    (h : (writes table).Blocks retry (fun _ => ()) blocks parts)
    (hmerges : Merges (parts.map Part.own) whole) (hleaves : (writes table).Leaves whole)
    (hdone : ∀ part ∈ parts, part.outcome = .done ()) :
    blocks = (parts.map fun part => part.own.flatMap Happening.taken) ∧
      List.Forall₂ Resubmitted blocks
        (parts.map fun part => part.own.flatMap Happening.exchange) ∧
      ∀ request error, .exchanged request (.error error) ∈ whole → error.isThrottling := by
  have hpart : List.Forall₂ (fun block part => part.own.flatMap Happening.taken = block ∧
      Resubmitted block (part.own.flatMap Happening.exchange) ∧
      ∀ request error, .exchanged request (.error error) ∈ part.own → error.isThrottling)
      blocks parts := by
    obtain ⟨hlength, hzip⟩ := List.forall₂_iff_zip.mp h
    refine List.forall₂_iff_zip.mpr ⟨hlength, fun {block part} hmem => ?_⟩
    have hpart := (List.of_mem_zip hmem).2
    obtain ⟨rounds, outcome, -, hrounds, houtcome⟩ := hzip hmem
    obtain ⟨items, rfl, -⟩ := Outcome.map_eq_done_iff.mp (houtcome.symm.trans (hdone part hpart))
    have hown := hleaves.of_subset (hmerges.sublist _ (List.mem_map_of_mem hpart)).subset
    obtain ⟨htaken, hresubmitted⟩ := hrounds.taken hown
    exact ⟨htaken, hresubmitted, fun request error => hrounds.throttled_of_done⟩
  refine ⟨?_, List.forall₂_map_right_iff.mpr (hpart.imp fun _ _ h => h.2.1),
    fun request error hmem => ?_⟩
  · refine List.forall₂_eq_eq_eq ▸ List.forall₂_map_right_iff.mpr (hpart.imp fun _ _ h => ?_)
    exact h.1.symm
  · obtain ⟨_, hown, hmem⟩ := hmerges.mem_iff.mp hmem
    obtain ⟨part, hmempart, rfl⟩ := List.mem_map.mp hown
    obtain ⟨block, -, -, -, hthrottled⟩ := exists_of_forall₂_right hpart hmempart
    exact hthrottled request error hmem

namespace Gateway

variable {m t : Memory} {table : Table} {retry : RetryPolicy} {whole : List Happening}

def WritesBatch (table : String) (request : Request) : Prop :=
  ∃ batch, request = .writeBatch table batch ∧ 1 ≤ batch.length ∧ batch.length ≤ writeBatchSize

theorem receive_inMemory (event : Event) : (inMemory table retry).receive event m = m := by
  cases event <;> rfl

namespace Follows

theorem leaves (h : (inMemory table retry).Follows m whole t) (name : String) :
    (Batching.writes name).Leaves whole := by
  intro entries unprocessed hmem hne
  obtain ⟨u, hanswer⟩ := h.answered hmem
  exact Memory.unwritten_of_answer hanswer hne

theorem exchanges (h : (inMemory table retry).Follows m whole t)
    (hasked : ∀ request refusal, .emitted (.asked request refusal) ∉ whole) :
    m.exchanges (whole.map Happening.event) = (whole.flatMap Happening.exchange, t) := by
  induction h with
  | nothing => rfl
  | @exchanged m between t request result whole hanswer _ ih =>
    have hanswer : m.answer request = (result, between) := hanswer
    have hrest := ih fun request refusal hmem => hasked request refusal (.tail _ hmem)
    simp only [List.map_cons, Happening.event, Memory.exchanges, hanswer, hrest, List.flatMap_cons]
    rfl
  | @emitted m t event whole _ ih =>
    have hrest := ih fun request refusal hmem => hasked request refusal (.tail _ hmem)
    rw [receive_inMemory] at hrest
    cases event with
    | asked request refusal => exact absurd (.head _) (hasked request refusal)
    | _ => exact hrest

theorem throttling (h : (inMemory table retry).Follows m whole t) :
    whole.countP Happening.throttles + t.throttling = m.throttling := by
  induction h with
  | nothing => exact Nat.zero_add _
  | @exchanged m between t request result whole hanswer _ ih =>
    have hcases := Memory.answer_throttling (m := m) request
    rw [show m.answer request = (result, between) from hanswer] at hcases
    obtain ⟨detail, rfl, hcount⟩ | ⟨hsettled, hsame⟩ := hcases
    · have hcount : m.throttling = between.throttling + 1 := hcount
      rw [List.countP_cons_of_pos (by rfl), hcount]
      omega
    · have hcalm : ¬ (Happening.exchanged request result).throttles := by
        cases result with
        | ok reply => exact Bool.false_ne_true
        | error error => simp [Happening.throttles, hsettled error rfl]
      rw [List.countP_cons_of_neg hcalm, ih, hsame]
  | emitted _ ih =>
    rw [receive_inMemory] at ih
    rw [List.countP_cons_of_neg (by exact Bool.false_ne_true), ih]

theorem wrote (h : (inMemory table retry).Follows m whole t)
    (hwrites : ∀ request result, .exchanged request result ∈ whole →
      ∃ name entries, request = .writeBatch name entries) :
    t.table = m.table ∧
      ((∀ request error, .exchanged request (.error error) ∈ whole → error.isThrottling) →
        t.items = (whole.flatMap Happening.taken).foldl (WriteEntry.apply m.table) m.items) ∧
      ∀ key, (∀ name entries result, .exchanged (.writeBatch name entries) result ∈ whole →
        ∀ entry ∈ entries, entry.place m.table ≠ key) → t.items.get? key = m.items.get? key := by
  induction h with
  | nothing => exact ⟨rfl, fun _ => rfl, fun _ _ => rfl⟩
  | @exchanged m between t request result whole hanswer _ ih =>
    obtain ⟨htable, hitems, helsewhere⟩ := ih fun request result hmem =>
      hwrites request result (.tail _ hmem)
    obtain ⟨name, entries, rfl⟩ := hwrites request result (.head _)
    have hanswer : m.answer (.writeBatch name entries) = (result, between) := hanswer
    obtain ⟨k, hunprocessed, hwrote⟩ := m.exists_wrote_writeBatch name entries
    rw [hanswer] at hunprocessed hwrote
    refine ⟨htable.trans hwrote.table, fun hthrottled => ?_, fun key hkey => ?_⟩
    · rw [hitems fun request error hmem => hthrottled request error (.tail _ hmem), hwrote.table,
        List.flatMap_cons, List.foldl_append]
      congr 1
      cases result with
      | ok unprocessed =>
        obtain rfl := hunprocessed unprocessed rfl
        have htake : entries.take (entries.length - (entries.drop k).length) = entries.take k :=
          List.take_eq_take_iff.mpr (by rw [List.length_drop]; omega)
        rw [hwrote.applied ⟨_, rfl⟩, Happening.taken, htake]
      | error error =>
        have herror := hthrottled _ error (.head _)
        cases error with
        | throttled detail => exact (Memory.settings_of_throttled hanswer).2
        | _ => cases herror
    · rw [helsewhere key fun name entries result hmem => hwrote.table ▸
        hkey name entries result (.tail _ hmem)]
      exact hwrote.elsewhere key fun entry hentry =>
        hkey _ _ _ (.head _) entry (List.mem_of_mem_take hentry)
  | emitted _ ih =>
    rw [receive_inMemory] at ih
    obtain ⟨htable, hitems, helsewhere⟩ := ih fun request result hmem =>
      hwrites request result (.tail _ hmem)
    exact ⟨htable, fun hthrottled => hitems fun request error hmem =>
        hthrottled request error (.tail _ hmem),
      fun key hkey => helsewhere key fun name entries result hmem =>
        hkey name entries result (.tail _ hmem)⟩

theorem throttled (h : (inMemory table retry).Follows m whole t) (hfailing : m.failing = 0)
    (hwrites : ∀ request result, .exchanged request result ∈ whole →
      ∃ entries, request = .writeBatch m.table.name entries ∧ entries ≠ [] ∧
        entries.length ≤ writeBatchSize ∧ ∀ entry ∈ entries, entry.Fits m.table)
    {request : Request} {error : Error} (hmem : .exchanged request (.error error) ∈ whole) :
    error.isThrottling := by
  induction h with
  | nothing => cases hmem
  | @exchanged m between t asked result whole hanswer _ ih =>
    obtain ⟨entries, rfl, hne, hsize, hfits⟩ := hwrites _ _ (.head _)
    have hanswer : m.answer (.writeBatch m.table.name entries) = (result, between) := hanswer
    obtain ⟨after, hafter, htable, hcalm⟩ | ⟨k, after, hafter, htable, hcalm⟩ :=
      Memory.answer_writeBatch hfailing hne hsize hfits
    · obtain ⟨rfl, rfl⟩ := Prod.mk.inj (hanswer.symm.trans hafter)
      cases hmem with
      | head => rfl
      | tail _ hmem =>
        exact ih hcalm (fun request result hmem => htable ▸ hwrites request result (.tail _ hmem))
          hmem
    · obtain ⟨rfl, rfl⟩ := Prod.mk.inj (hanswer.symm.trans hafter)
      cases hmem with
      | tail _ hmem =>
        exact ih hcalm (fun request result hmem => htable ▸ hwrites request result (.tail _ hmem))
          hmem
  | emitted _ ih =>
    rw [receive_inMemory] at ih
    cases hmem with
    | tail _ hmem =>
      exact ih hfailing (fun request result hmem => hwrites request result (.tail _ hmem)) hmem

end Follows

section Blocks

variable {blocks : List (List WriteEntry)} {parts : List (Part Unit)}

theorem Follows.all_done (h : (inMemory table retry).Follows m whole t) (hm : m.Bearable retry)
    (htable : m.table = table) (hsize : ∀ block ∈ blocks, block.length ≤ writeBatchSize)
    (hfits : ∀ block ∈ blocks, ∀ entry ∈ block, entry.Fits table)
    (hparts : (Batching.writes table.name).Blocks retry (fun _ => ()) blocks parts)
    (hmerges : Merges (parts.map Part.own) whole) : ∀ part ∈ parts, part.outcome = .done () := by
  subst htable
  intro part hpart
  have hleaves := h.leaves m.table.name
  have hsublist := hmerges.sublist _ (List.mem_map_of_mem hpart)
  obtain ⟨block, -, rounds, outcome, hlt, hrounds, houtcome⟩ := exists_of_forall₂_right hparts hpart
  cases outcome with
  | done items => exact houtcome
  | unfinished =>
    exact absurd rfl (hrounds.ne_unfinished (hleaves.of_subset hsublist.subset) hlt)
  | failed error =>
    -- There would have to be more throttled attempts than are to be throttled.
    obtain ⟨sent, first, hfirst, hattempted⟩ := hrounds.exists_refused
    have herror : error.isThrottling := by
      refine h.throttled hm.failing (fun request result hmem => ?_)
        (hsublist.subset (hfirst.subset hattempted.last_mem))
      obtain ⟨block, hblock, sent, hrequest, hne, hsuffix⟩ := hparts.asked hmerges hleaves hmem
      exact ⟨sent, hrequest, hne, Nat.le_trans hsuffix.length_le (hsize block hblock),
        fun entry hentry => hfits block hblock entry (hsuffix.subset hentry)⟩
    have hcount := hattempted.countP_throttles herror
    have hle := (hfirst.trans hsublist).countP_le (p := Happening.throttles)
    have hall := h.throttling
    have hbudget := hm.throttling
    omega

theorem Follows.not_waited (h : (inMemory table retry).Follows m whole t) (hm : m.throttling = 0)
    (hparts : (Batching.writes table.name).Blocks retry (fun _ => ()) blocks parts)
    (hmerges : Merges (parts.map Part.own) whole) (milliseconds : Nat) :
    .waited milliseconds ∉ whole.map Happening.event := by
  intro hmem
  obtain ⟨happening, hmem, hevent⟩ := List.mem_map.mp hmem
  cases happening with
  | exchanged => cases hevent
  | emitted event =>
    cases hevent
    obtain ⟨_, hown, hmem⟩ := hmerges.mem_iff.mp hmem
    obtain ⟨part, hpart, rfl⟩ := List.mem_map.mp hown
    obtain ⟨block, -, rounds, items, -, hrounds, -⟩ := exists_of_forall₂_right hparts hpart
    have hpos := hrounds.countP_pos_of_waited hmem
    have hle := (hmerges.sublist _ hown).countP_le (p := Happening.throttles)
    have hall := h.throttling
    omega

end Blocks

/-- Nothing pauses: a table in memory answers at once, and there are no waits or they take no
time. -/
def Undelayed (pauses : Pauses) (m : Memory) : Prop :=
  pauses.answers = false ∧ (pauses.waits = true → m.throttling = 0)

instance (pauses : Pauses) (m : Memory) : Decidable (Undelayed pauses m) :=
  inferInstanceAs (Decidable (_ ∧ _))

theorem writeTogether_of_undelayed {pauses : Pauses} (h : Undelayed pauses m) (table : Table)
    (retry : RetryPolicy) (schedule : List Nat) (entries : List WriteEntry) :
    (inMemory table retry).writeTogether pauses schedule entries m =
      (inMemory table retry).batchWrite entries m := by
  obtain ⟨answers, waits⟩ := pauses
  obtain ⟨rfl, hwaits⟩ : answers = false ∧ (waits = true → m.throttling = 0) := h
  refine writeTogether_of_no_wait schedule fun htrue milliseconds hmem => ?_
  obtain ⟨parts, hparted⟩ :=
    (inMemory table retry).exists_parted_batchWrite m ⟨false, waits⟩ entries
  obtain ⟨notices, hevents⟩ := hparted.events
  rw [hevents] at hmem
  obtain hmem | hmem := List.mem_append.mp hmem
  · exact hparted.follows.not_waited (hwaits htrue) hparted.writeBlocks
      hparted.merges milliseconds hmem
  · simp at hmem

end Gateway

/-- The blocks of a batch write come about: of each block what was left behind is sent again until
nothing is, and the entries of each are applied in their order. -/
structure Memory.AppliesBlocks {α : Type} (m : Memory) (ran : Ran Memory α)
    (blocks : List (List WriteEntry)) (rounds : List (List (List WriteEntry × List WriteEntry)))
    (order : List WriteEntry) : Prop where
  resubmitted : List.Forall₂ Resubmitted blocks rounds
  exchanged : Merges rounds (m.exchanges ran.events).1
  store : (m.exchanges ran.events).2 = ran.store
  ordered : Merges blocks order
  items : ran.store.items = order.foldl (WriteEntry.apply m.table) m.items
  asked : ∀ request refusal, .asked request refusal ∈ ran.events →
    Gateway.WritesBatch m.table.name request ∧ ∀ error ∈ refusal, error.isThrottling

theorem Memory.exchanges_logged (m : Memory) (notices : List Notice) :
    m.exchanges (notices.map .logged) = ([], m) := by
  induction notices with
  | nil => rfl
  | cons notice notices ih => exact ih

namespace Gateway.Parted

variable {α : Type} {m : Memory} {retry : RetryPolicy} {pauses : Pauses}
  {blocks : List (List WriteEntry)} {gather : List Unit → α} {ran : Ran Memory α}
  {parts : List (Part Unit)} {whole : List Happening}

theorem applies
    (h : (inMemory m.table retry).Parted m (blocks.map ((inMemory m.table retry).writeStart pauses))
      gather ran parts whole) (hm : m.Bearable retry)
    (hsize : ∀ block ∈ blocks, block.length ≤ writeBatchSize)
    (hfits : ∀ entry ∈ blocks.flatten, entry.Fits m.table) :
    ran.outcome = .done (gather (blocks.map fun _ => ())) ∧
      m.AppliesBlocks ran blocks (parts.map fun part => part.own.flatMap Happening.exchange)
        (whole.flatMap Happening.taken) ∧
      blocks = (parts.map fun part => part.own.flatMap Happening.taken) ∧
      (m.exchanges ran.events).1 = whole.flatMap Happening.exchange := by
  have hblocks := h.writeBlocks
  have hleaves := h.follows.leaves m.table.name
  have hparts := h.follows.all_done hm rfl hsize
    (fun block hblock entry hentry => hfits entry (List.mem_flatten.mpr ⟨block, hblock, hentry⟩))
    hblocks h.merges
  obtain ⟨htaken, hresubmitted, hthrottled⟩ := hblocks.taken_of_done h.merges hleaves hparts
  obtain ⟨-, hitems, -⟩ := h.follows.wrote fun request result hmem => by
    obtain ⟨_, -, sent, hrequest, -⟩ := hblocks.asked h.merges hleaves hmem
    exact ⟨_, sent, hrequest⟩
  obtain ⟨notices, hevents⟩ := h.events
  have hexchanges := h.follows.exchanges fun request refusal hmem =>
    hblocks.emitted h.merges hmem
  have hall : m.exchanges ran.events = (whole.flatMap Happening.exchange, ran.store) := by
    rw [hevents, Memory.exchanges_append, hexchanges, Memory.exchanges_logged, List.append_nil]
  have houtcomes : parts.map Part.outcome = (blocks.map fun _ => ()).map .done := by
    have hlength : blocks.length = parts.length := List.Forall₂.length_eq hblocks
    rw [List.map_congr_left hparts, List.map_map, List.map_const', ← hlength]
    exact (List.map_const' ..).symm
  have hdone : ran.outcome = .done (gather (blocks.map fun _ => ())) := by
    rw [h.outcome, Outcome.all_eq_done_iff.mpr houtcomes]
    rfl
  refine ⟨hdone, ⟨?_, ?_, ?_, ?_, hitems hthrottled, fun request refusal hmem => ?_⟩, htaken,
    congrArg Prod.fst hall⟩
  · exact hresubmitted
  · rw [hall]
    simpa [Function.comp_def] using h.merges.flatMap Happening.exchange
  · rw [hall]
  · rw [htaken]
    simpa [Function.comp_def] using h.merges.flatMap Happening.taken
  · obtain ⟨result, rfl, hanswered⟩ := h.exists_exchanged
      (fun _ _ hmem => hblocks.emitted h.merges hmem) hmem
    obtain ⟨block, hblock, sent, hrequest, hne, hsuffix⟩ :=
      hblocks.asked h.merges hleaves hanswered
    refine ⟨⟨sent, hrequest, List.length_pos_iff.mpr hne,
      Nat.le_trans hsuffix.length_le (hsize block hblock)⟩, fun error herror => ?_⟩
    cases result with
    | ok reply => cases herror
    | error refused =>
      cases herror
      exact hthrottled _ _ hanswered

theorem applies_inTurn
    (h : (inMemory m.table retry).Parted m (blocks.map ((inMemory m.table retry).writeStart pauses))
      gather ran parts (parts.map Part.own).flatten) (hm : m.Bearable retry)
    (hsize : ∀ block ∈ blocks, block.length ≤ writeBatchSize)
    (hfits : ∀ entry ∈ blocks.flatten, entry.Fits m.table) :
    ran.outcome = .done (gather (blocks.map fun _ => ())) ∧
      ∃ rounds, m.AppliesBlocks ran blocks rounds blocks.flatten ∧
        (m.exchanges ran.events).1 = rounds.flatten := by
  obtain ⟨hdone, happlies, hblocks, hexchanges⟩ := h.applies hm hsize hfits
  have horder : (parts.map Part.own).flatten.flatMap Happening.taken = blocks.flatten := by
    rw [← List.flatMap_def, List.flatMap_assoc, List.flatMap_def, hblocks]
  rw [horder] at happlies
  refine ⟨hdone, _, happlies, ?_⟩
  rw [hexchanges, ← List.flatMap_def, List.flatMap_assoc, List.flatMap_def]

end Gateway.Parted

/-- Where the waits are pauses, the order of the list can be lost. -/
example :
    let table : Table := ⟨"orders", ⟨"user", none⟩, .empty⟩
    let item (paid : Bool) : Item :=
      (SortedMap.empty.insert "user" (.string "u")).insert "paid" (.boolean paid)
    let m : Memory := { Memory.new table none [] with throttling := 1 }
    let entries : List WriteEntry := List.replicate 25 (.put (item true)) ++ [.put (item false)]
    let after (waits : Bool) :=
      ((Gateway.inMemory table .standard).writeTogether ⟨false, waits⟩ [] entries m).store
    (after false).items.values = [item false] ∧ (after true).items.values = [item true] := by
  decide +kernel

end KeyedTable
