import KeyedTable.Proofs.Gateway.Attempts
import KeyedTable.Proofs.Gateway.Jointly
import KeyedTable.Proofs.Merging
import KeyedTable.Store.Script

/-! What happens in each of several tasks at the same time. -/

namespace KeyedTable

variable {σ α β : Type}

/-- A task may go like this; the answers are whatever they are. -/
inductive Task.Goes : Task α → List Happening → Outcome α → Prop
  | ended {outcome} : Goes (.ended outcome) [] outcome
  | exchanged {request answered result own outcome} : Goes (answered result) own outcome →
      Goes (.ask request answered) (.exchanged request result :: own) outcome
  | emitted {event rest own outcome} : Goes rest own outcome →
      Goes (.emit event rest) (.emitted event :: own) outcome
  | paused {rest own outcome} : Goes rest own outcome → Goes (.pause rest) own outcome

/-- The store answers like this, one request after the other, whoever sends them. -/
inductive Gateway.Follows (g : Gateway σ) : σ → List Happening → σ → Prop
  | nothing {s} : Follows g s [] s
  | exchanged {s t u request result whole} : g.store.answer request s = (result, t) →
      Follows g t whole u → Follows g s (.exchanged request result :: whole) u
  | emitted {s u event whole} : Follows g (g.receive event s) whole u →
      Follows g s (.emitted event :: whole) u

def Gateway.Reached (g : Gateway σ) (s : σ) (whole : List Happening) (u : σ) : Prop :=
  ∃ before after, whole = before ++ after ∧ g.Follows s before u

def Gateway.Begun (g : Gateway σ) (s : σ) (whole : List Happening) (u : σ) (own : List Happening) :
    Prop :=
  ∃ before after, whole = before ++ after ∧ g.Follows s before u ∧ own.Sublist after

structure Part (α : Type) where
  own : List Happening
  outcome : Outcome α

def Part.Of (task : Task α) (part : Part α) : Prop := task.Goes part.own part.outcome

namespace Gateway

variable {g : Gateway σ} {s t : σ}

theorem Begun.reached {u : σ} {whole own : List Happening} (h : g.Begun s whole u own) :
    g.Reached s whole u := by
  obtain ⟨before, after, hwhole, hfollows, -⟩ := h
  exact ⟨before, after, hwhole, hfollows⟩

theorem Begun.start {whole own : List Happening} (h : own.Sublist whole) : g.Begun s whole s own :=
  ⟨[], whole, rfl, .nothing, h⟩

theorem Begun.exchanged {u : σ} {request : Request} {result : Except Error request.Reply}
    {whole own : List Happening} (h : g.Begun t whole u own)
    (hanswer : g.store.answer request s = (result, t)) :
    g.Begun s (.exchanged request result :: whole) u own := by
  obtain ⟨before, after, rfl, hfollows, hown⟩ := h
  exact ⟨_ :: before, after, rfl, .exchanged hanswer hfollows, hown⟩

theorem Begun.emitted {u : σ} {event : Event} {whole own : List Happening}
    (h : g.Begun (g.receive event s) whole u own) : g.Begun s (.emitted event :: whole) u own := by
  obtain ⟨before, after, rfl, hfollows, hown⟩ := h
  exact ⟨_ :: before, after, rfl, .emitted hfollows, hown⟩

theorem Jointly.exists_parts {tasks : List (Task α)} {starts : List (σ → Task α)}
    {whole : List Happening} {outcomes : List (Outcome α)}
    (h : g.Jointly s tasks starts whole t outcomes) :
    ∃ parts begun : List (Part α),
      List.Forall₂ Part.Of tasks parts ∧
      List.Forall₂ (fun start part => ∃ u, g.Begun s whole u part.own ∧ Part.Of (start u) part)
        starts begun ∧
      Merges ((parts ++ begun).map Part.own) whole ∧ g.Follows s whole t ∧
      outcomes = (parts ++ begun).map Part.outcome := by
  induction h with
  | @ended s outcomes =>
    refine ⟨outcomes.map fun outcome => ⟨[], outcome⟩, [], ?_, .nil, .nothing ?_, .nothing, ?_⟩
    · rw [List.forall₂_map_left_iff, List.forall₂_map_right_iff]
      exact List.forall₂_same.mpr fun _ _ => .ended
    · simp
    · simp [Function.comp_def]
  | @begun s _ start _ whole _ _ _ ih =>
    obtain ⟨parts, begun, hparts, hbegun, hwhole, hfollows, rfl⟩ := ih
    obtain ⟨first, part, last, rfl, hfirst, hpart, hlast⟩ := forall₂_middle_iff.mp hparts
    cases hlast
    have hmerges : Merges ((first ++ part :: begun).map Part.own) whole := by simpa using hwhole
    have hown := hmerges.sublist part.own (by simp)
    refine ⟨first, part :: begun, hfirst, .cons ⟨s, .start hown, hpart⟩ hbegun, hmerges, hfollows,
      ?_⟩
    simp
  | exchanged hanswer _ ih =>
    obtain ⟨parts, begun, hparts, hbegun, hwhole, hfollows, rfl⟩ := ih
    obtain ⟨first, part, last, rfl, hfirst, hpart, hlast⟩ := forall₂_middle_iff.mp hparts
    refine ⟨first ++ ⟨_ :: part.own, part.outcome⟩ :: last, begun,
      forall₂_middle_iff.mpr ⟨_, _, _, rfl, hfirst, .exchanged hpart, hlast⟩,
      hbegun.imp fun _ _ ⟨u, hu, hstart⟩ => ⟨u, hu.exchanged hanswer, hstart⟩, ?_,
      .exchanged hanswer hfollows, ?_⟩
    · simp only [List.append_assoc, List.cons_append, List.map_append, List.map_cons] at hwhole ⊢
      exact .next hwhole
    · simp
  | emitted _ ih =>
    obtain ⟨parts, begun, hparts, hbegun, hwhole, hfollows, rfl⟩ := ih
    obtain ⟨first, part, last, rfl, hfirst, hpart, hlast⟩ := forall₂_middle_iff.mp hparts
    refine ⟨first ++ ⟨_ :: part.own, part.outcome⟩ :: last, begun,
      forall₂_middle_iff.mpr ⟨_, _, _, rfl, hfirst, .emitted hpart, hlast⟩,
      hbegun.imp fun _ _ ⟨u, hu, hstart⟩ => ⟨u, hu.emitted, hstart⟩, ?_, .emitted hfollows, ?_⟩
    · simp only [List.append_assoc, List.cons_append, List.map_append, List.map_cons] at hwhole ⊢
      exact .next hwhole
    · simp
  | paused _ ih =>
    obtain ⟨parts, begun, hparts, hbegun, hwhole, hfollows, rfl⟩ := ih
    obtain ⟨first, part, last, rfl, hfirst, hpart, hlast⟩ := forall₂_middle_iff.mp hparts
    exact ⟨first ++ part :: last, begun,
      forall₂_middle_iff.mpr ⟨_, _, _, rfl, hfirst, .paused hpart, hlast⟩, hbegun, hwhole,
      hfollows, rfl⟩

/-- By whatever schedule tasks go on, each of them goes its own way, and the store answers what they
send in turns. -/
theorem exists_parts (g : Gateway σ) (schedule : List Nat) (starts : List (σ → Task α)) (s : σ) :
    ∃ (parts : List (Part α)) (whole : List Happening) (t : σ),
      g.together schedule starts s =
        ⟨.all (parts.map Part.outcome), t, whole.map Happening.event⟩ ∧
      List.Forall₂ (fun start part => ∃ u, g.Begun s whole u part.own ∧ Part.Of (start u) part)
        starts parts ∧
      Merges (parts.map Part.own) whole ∧ g.Follows s whole t := by
  obtain ⟨whole, t, outcomes, hran, hjointly⟩ := g.exists_jointly schedule starts s
  obtain ⟨parts, begun, hparts, hbegun, hwhole, hfollows, rfl⟩ := hjointly.exists_parts
  cases hparts
  exact ⟨begun, whole, t, hran, hbegun, hwhole, hfollows⟩

theorem Follows.append {u : σ} {before after : List Happening} (h : g.Follows s before t)
    (hrest : g.Follows t after u) : g.Follows s (before ++ after) u := by
  induction h with
  | nothing => exact hrest
  | exchanged hanswer _ ih => exact .exchanged hanswer (ih hrest)
  | emitted _ ih => exact .emitted (ih hrest)

theorem Follows.of_append {u : σ} {before after : List Happening}
    (h : g.Follows s (before ++ after) t) (hbefore : g.Follows s before u) :
    g.Follows u after t := by
  induction hbefore with
  | nothing => exact h
  | exchanged hanswer _ ih =>
    cases h with
    | exchanged hother h =>
      obtain rfl := congrArg Prod.snd (hother.symm.trans hanswer)
      exact ih h
  | emitted _ ih =>
    cases h with
    | emitted h => exact ih h

theorem Begun.append {u : σ} {before after own : List Happening} (h : g.Begun t after u own)
    (hbefore : g.Follows s before t) : g.Begun s (before ++ after) u own := by
  obtain ⟨first, last, rfl, hfollows, hown⟩ := h
  exact ⟨before ++ first, last, (List.append_assoc ..).symm, hbefore.append hfollows, hown⟩

theorem Follows.keeps {I : σ → Prop} {whole : List Happening} (h : g.Follows s whole t)
    (hanswer : ∀ request result, .exchanged request result ∈ whole → ∀ u, I u →
      I (g.store.answer request u).2)
    (hreceive : ∀ event, .emitted event ∈ whole → ∀ u, I u → I (g.receive event u)) (hs : I s) :
    I t ∧ ∀ request result, .exchanged request result ∈ whole →
      ∃ u, I u ∧ (g.store.answer request u).1 = result := by
  induction h with
  | nothing => exact ⟨hs, fun _ _ hmem => absurd hmem List.not_mem_nil⟩
  | @exchanged s between _ request result whole hanswered _ ih =>
    have hbetween := hanswer request result (.head _) s hs
    rw [hanswered] at hbetween
    obtain ⟨hlast, hothers⟩ := ih (fun request result hmem => hanswer request result (.tail _ hmem))
      (fun event hmem => hreceive event (.tail _ hmem)) hbetween
    refine ⟨hlast, fun request result hmem => ?_⟩
    cases hmem with
    | head => exact ⟨s, hs, congrArg Prod.fst hanswered⟩
    | tail _ hmem => exact hothers request result hmem
  | @emitted s _ event whole _ ih =>
    obtain ⟨hlast, hothers⟩ := ih (fun request result hmem => hanswer request result (.tail _ hmem))
      (fun event hmem => hreceive event (.tail _ hmem)) (hreceive event (.head _) s hs)
    refine ⟨hlast, fun request result hmem => ?_⟩
    cases hmem with
    | tail _ hmem => exact hothers request result hmem

theorem Follows.answered {whole : List Happening} (h : g.Follows s whole t) {request : Request}
    {result : Except Error request.Reply} (hmem : .exchanged request result ∈ whole) :
    ∃ u, (g.store.answer request u).1 = result := by
  obtain ⟨-, hanswered⟩ :=
    h.keeps (I := fun _ => True) (fun _ _ _ _ _ => trivial) (fun _ _ _ _ => trivial) trivial
  obtain ⟨u, -, hanswer⟩ := hanswered request result hmem
  exact ⟨u, hanswer⟩

theorem exists_goes (g : Gateway σ) (task : Task α) (s : σ) :
    ∃ (part : Part α) (t : σ),
      g.carryOut task s = ⟨part.outcome, t, part.own.map Happening.event⟩ ∧
      Part.Of task part ∧ g.Follows s part.own t := by
  induction task generalizing s with
  | ended outcome => exact ⟨⟨[], outcome⟩, s, rfl, .ended, .nothing⟩
  | ask request answered ih =>
    obtain ⟨part, t, hran, hpart, hfollows⟩ := ih (g.store.answer request s).1
      (g.store.answer request s).2
    exact ⟨⟨.exchanged request _ :: part.own, part.outcome⟩, t, congrArg (Ran.after _) hran,
      .exchanged hpart, .exchanged rfl hfollows⟩
  | emit event rest ih =>
    obtain ⟨part, t, hran, hpart, hfollows⟩ := ih (g.receive event s)
    exact ⟨⟨.emitted event :: part.own, part.outcome⟩, t, congrArg (Ran.after _) hran,
      .emitted hpart, .emitted hfollows⟩
  | pause rest ih =>
    obtain ⟨part, t, hran, hpart, hfollows⟩ := ih s
    exact ⟨part, t, hran, .paused hpart, hfollows⟩

theorem exists_parts_inTurn (g : Gateway σ) (starts : List (σ → Task α)) (s : σ) :
    ∃ (parts : List (Part α)) (t : σ),
      Action.all (starts.map g.complete) s =
        ⟨.all (parts.map Part.outcome), t, (parts.map Part.own).flatten.map Happening.event⟩ ∧
      List.Forall₂ (fun start part => ∃ u, g.Begun s (parts.map Part.own).flatten u part.own ∧
        Part.Of (start u) part) starts parts ∧
      g.Follows s (parts.map Part.own).flatten t := by
  induction starts generalizing s with
  | nil => exact ⟨[], s, rfl, .nil, .nothing⟩
  | cons start starts ih =>
    obtain ⟨part, t, hran, hpart, hfollows⟩ := g.exists_goes (start s) s
    obtain ⟨parts, u, hall, hparts, hrest⟩ := ih t
    have hown : part.own.Sublist (part.own ++ (parts.map Part.own).flatten) :=
      List.sublist_append_left _ _
    refine ⟨part :: parts, u, ?_, .cons ⟨s, .start hown, hpart⟩ (hparts.imp ?_),
      hfollows.append hrest⟩
    rotate_left
    · exact fun _ _ ⟨v, hv, hstart⟩ => ⟨v, hv.append hfollows, hstart⟩
    have howns : ((part :: parts).map Part.own).flatten.map Happening.event =
        part.own.map Happening.event ++ (parts.map Part.own).flatten.map Happening.event := by
      rw [List.map_cons, List.flatten_cons, List.map_append]
    rw [howns]
    have hran : g.complete start s = ⟨part.outcome, t, part.own.map Happening.event⟩ := hran
    exact Action.all_cons_of_all hran hall

/-- What a run comes to that is made of the parts: the whole of what happens is theirs, each in its
own order. -/
structure Parted (g : Gateway σ) (s : σ) (starts : List (σ → Task α)) (gather : List α → β)
    (ran : Ran σ β) (parts : List (Part α)) (whole : List Happening) : Prop where
  starts : List.Forall₂ (fun start part => ∃ u, g.Begun s whole u part.own ∧ Part.Of (start u) part)
    starts parts
  merges : Merges (parts.map Part.own) whole
  follows : g.Follows s whole ran.store
  outcome : ran.outcome = (Outcome.all (parts.map Part.outcome)).map gather
  events : ∃ notices : List Notice, ran.events = whole.map Happening.event ++ notices.map .logged

theorem Parted.bind {γ : Type} {starts : List (σ → Task α)} {gather : List α → β} {f : β → γ}
    {first : Action σ β} {next : β → Action σ γ} {parts : List (Part α)} {whole : List Happening}
    (h : g.Parted s starts gather (first s) parts whole)
    (hnext : ∀ value t, ∃ notices : List Notice,
      next value t = ⟨.done (f value), t, notices.map .logged⟩) :
    g.Parted s starts (f ∘ gather) ((first >>= next) s) parts whole := by
  obtain ⟨notices, hran⟩ := Action.exists_notices_bind first hnext s
  obtain ⟨earlier, hearlier⟩ := h.events
  rw [hran]
  refine ⟨h.starts, h.merges, h.follows, ?_, earlier ++ notices, ?_⟩
  · rw [h.outcome]
    cases Outcome.all (parts.map Part.outcome) <;> rfl
  · rw [hearlier, List.map_append, List.append_assoc]

theorem Parted.ne_unfinished {starts : List (σ → Task α)} {gather : List α → β} {ran : Ran σ β}
    {parts : List (Part α)} {whole : List Happening} (h : g.Parted s starts gather ran parts whole)
    (hparts : ∀ part ∈ parts, part.outcome ≠ .unfinished) : ran.outcome ≠ .unfinished := by
  have hall := Outcome.all_ne_unfinished (List.forall_mem_map.mpr hparts)
  rw [h.outcome]
  cases houtcome : Outcome.all (parts.map Part.outcome) with
  | done | failed => exact nofun
  | unfinished => exact absurd houtcome hall

theorem exists_parted_together (g : Gateway σ) (schedule : List Nat)
    (starts : List (σ → Task α)) (s : σ) :
    ∃ parts whole, g.Parted s starts id (g.together schedule starts s) parts whole := by
  obtain ⟨parts, whole, t, hran, hparts, hmerges, hfollows⟩ := g.exists_parts schedule starts s
  refine ⟨parts, whole, hparts, hmerges, ?_, ?_, [], ?_⟩
  · rw [hran]
    exact hfollows
  · rw [hran]
    cases Outcome.all (parts.map Part.outcome) <;> rfl
  · rw [hran, List.map_nil, List.append_nil]

theorem exists_parted_inTurn (g : Gateway σ) (starts : List (σ → Task α)) (s : σ) :
    ∃ parts : List (Part α), g.Parted s starts id (Action.all (starts.map g.complete) s) parts
      (parts.map Part.own).flatten := by
  obtain ⟨parts, t, hran, hparts, hfollows⟩ := g.exists_parts_inTurn starts s
  refine ⟨parts, hparts, .flatten _, ?_, ?_, [], ?_⟩
  · rw [hran]
    exact hfollows
  · rw [hran]
    cases Outcome.all (parts.map Part.outcome) <;> rfl
  · rw [hran, List.map_nil, List.append_nil]

theorem deliveries_map_event (own : List Happening) :
    deliveries (own.map Happening.event) =
      own.flatMap fun happening => deliveries [happening.event] := by
  induction own with
  | nil => rfl
  | cons happening own ih =>
    rw [List.map_cons, List.flatMap_cons, ← ih, ← deliveries_append, List.singleton_append]

theorem Parted.exists_exchanged {starts : List (σ → Task α)} {gather : List α → β} {ran : Ran σ β}
    {parts : List (Part α)} {whole : List Happening} (h : g.Parted s starts gather ran parts whole)
    (hasked : ∀ request refusal, .emitted (.asked request refusal) ∉ whole) {request : Request}
    {refusal : Option Error} (hmem : .asked request refusal ∈ ran.events) :
    ∃ result, refusal = refusal? result ∧ .exchanged request result ∈ whole := by
  obtain ⟨notices, hevents⟩ := h.events
  rw [hevents] at hmem
  obtain hmem | hmem := List.mem_append.mp hmem
  · obtain ⟨happening, hhappening, hevent⟩ := List.mem_map.mp hmem
    cases happening with
    | exchanged request' result =>
      cases hevent
      exact ⟨result, rfl, hhappening⟩
    | emitted event =>
      obtain rfl : event = .asked request refusal := hevent
      exact absurd hhappening (hasked request refusal)
  · simp at hmem

theorem Parted.pages {starts : List (σ → Task α)} {gather : List α → β} {ran : Ran σ β}
    {parts : List (Part α)} {whole : List Happening}
    (h : g.Parted s starts gather ran parts whole) :
    Merges (parts.map fun part => deliveries (part.own.map Happening.event))
      (deliveries ran.events) := by
  obtain ⟨notices, hevents⟩ := h.events
  rw [hevents, deliveries_append, deliveries_logged, List.append_nil]
  simpa [deliveries_map_event, Function.comp_def] using
    h.merges.flatMap fun happening => deliveries [happening.event]

section Operations

variable (g) (pauses : Pauses) (schedule : List Nat) (s)

theorem exists_parted_writeTogether (entries : List WriteEntry) :
    ∃ parts whole, g.Parted s
      ((batches writeBatchSize (entries.map (WriteEntry.reduce g.table))).map
        (g.writeStart pauses))
      (fun _ => ()) (g.writeTogether pauses schedule entries s) parts whole := by
  obtain ⟨parts, whole, h⟩ := g.exists_parted_together schedule
    ((batches writeBatchSize (entries.map (WriteEntry.reduce g.table))).map (g.writeStart pauses)) s
  exact ⟨parts, whole, h.bind (f := fun _ => ()) fun _ _ => ⟨[.wroteBatch _ _], rfl⟩⟩

theorem exists_parted_batchWrite (entries : List WriteEntry) :
    ∃ parts : List (Part Unit), g.Parted s
      ((batches writeBatchSize (entries.map (WriteEntry.reduce g.table))).map
        (g.writeStart pauses))
      (fun _ => ()) (g.batchWrite entries s) parts (parts.map Part.own).flatten := by
  obtain ⟨parts, h⟩ := g.exists_parted_inTurn
    ((batches writeBatchSize (entries.map (WriteEntry.reduce g.table))).map (g.writeStart pauses)) s
  rw [map_complete_writeStart] at h
  exact ⟨parts, h.bind (f := fun _ => ()) fun _ _ => ⟨[.wroteBatch _ _], rfl⟩⟩

theorem exists_parted_getTogether (keys : List Item) :
    ∃ parts whole, g.Parted s
      ((batches getBatchSize (keys.map g.table.keyOf)).map (g.getStart pauses))
      List.flatten (g.getTogether pauses schedule keys s) parts whole := by
  obtain ⟨parts, whole, h⟩ := g.exists_parted_together schedule
    ((batches getBatchSize (keys.map g.table.keyOf)).map (g.getStart pauses)) s
  exact ⟨parts, whole, h.bind (f := List.flatten) fun _ _ => ⟨[.gotBatch _ _], rfl⟩⟩

theorem scanTogether_of_error {segments : Nat} {options : ScanOptions}
    {start : Option (List (Option Item))} {error : Error}
    (h : g.scanReads segments options start = .error error) :
    g.scanTogether pauses schedule segments options start s = ⟨.failed error, s, []⟩ := by
  rw [scanTogether, h]
  rfl

theorem exists_parted_scanTogether {segments : Nat} {options : ScanOptions}
    {start : Option (List (Option Item))} {reads : List Read}
    (h : g.scanReads segments options start = .ok reads) :
    ∃ parts whole, g.Parted s (reads.map (g.readStart pauses)) (fun _ => ())
      (g.scanTogether pauses schedule segments options start s) parts whole := by
  obtain ⟨parts, whole, hparted⟩ := g.exists_parted_together schedule
    (reads.map (g.readStart pauses)) s
  rw [scanTogether, h, Action.ofExcept_bind]
  exact ⟨parts, whole, hparted.bind (f := fun _ => ()) fun _ _ => ⟨[], rfl⟩⟩

end Operations

end Gateway

namespace Task.Goes

variable {task : Task α} {next : α → Task β} {own : List Happening} {outcome : Outcome β}

theorem of_bind (h : (task >>= next).Goes own outcome) :
    (∃ value first rest, own = first ++ rest ∧ task.Goes first (.done value) ∧
        (next value).Goes rest outcome) ∨
      (∃ error, outcome = .failed error ∧ task.Goes own (.failed error)) ∨
      outcome = .unfinished ∧ task.Goes own .unfinished := by
  change (task.bind next).Goes own outcome at h
  induction task generalizing own with
  | ended ended =>
    cases ended with
    | done value => exact .inl ⟨value, [], own, rfl, .ended, h⟩
    | failed error =>
      cases h
      exact .inr (.inl ⟨error, rfl, .ended⟩)
    | unfinished =>
      cases h
      exact .inr (.inr ⟨rfl, .ended⟩)
  | ask request answered ih =>
    cases h with
    | exchanged h =>
      obtain ⟨value, first, rest, rfl, hfirst, hrest⟩ | ⟨error, rfl, hfailed⟩ | ⟨rfl, hcut⟩ :=
        ih _ h
      · exact .inl ⟨value, _ :: first, rest, rfl, .exchanged hfirst, hrest⟩
      · exact .inr (.inl ⟨error, rfl, .exchanged hfailed⟩)
      · exact .inr (.inr ⟨rfl, .exchanged hcut⟩)
  | emit event rest ih =>
    cases h with
    | emitted h =>
      obtain ⟨value, first, rest, rfl, hfirst, hrest⟩ | ⟨error, rfl, hfailed⟩ | ⟨rfl, hcut⟩ := ih h
      · exact .inl ⟨value, _ :: first, rest, rfl, .emitted hfirst, hrest⟩
      · exact .inr (.inl ⟨error, rfl, .emitted hfailed⟩)
      · exact .inr (.inr ⟨rfl, .emitted hcut⟩)
  | pause rest ih =>
    cases h with
    | paused h =>
      obtain ⟨value, first, rest, rfl, hfirst, hrest⟩ | ⟨error, rfl, hfailed⟩ | ⟨rfl, hcut⟩ := ih h
      · exact .inl ⟨value, first, rest, rfl, .paused hfirst, hrest⟩
      · exact .inr (.inl ⟨error, rfl, .paused hfailed⟩)
      · exact .inr (.inr ⟨rfl, .paused hcut⟩)

theorem of_pauseIf {pauses : Bool} {task : Task α} {outcome : Outcome α}
    (h : (Task.pauseIf pauses task).Goes own outcome) : task.Goes own outcome := by
  cases pauses with
  | false => exact h
  | true =>
    cases h with
    | paused h => exact h

theorem of_asking {pauses : Pauses} {request : Request}
    {answered : Except Error request.Reply → Task α} {outcome : Outcome α}
    (h : (Task.asking pauses request answered).Goes own outcome) :
    ∃ result rest, own = .exchanged request result :: rest ∧
      (answered result).Goes rest outcome := by
  cases of_pauseIf h with
  | exchanged h => exact ⟨_, _, rfl, of_pauseIf h⟩

end Task.Goes

/-! A part goes on its own as it went beside the others, if it is given the same answers. -/

def Prepared.of : (request : Request) → request.Reply → Prepared
  | .get _ _, item => { empty with item }
  | .put _, _ => empty
  | .writeBatch _ _, entries => { empty with entries }
  | .getBatch _ _, found => { empty with items := found.items, keys := found.unprocessed }
  | .read _, page => { empty with items := page.items, lastKey := page.lastKey }

@[simp] theorem Prepared.reply_of (request : Request) (reply : request.Reply) :
    (Prepared.of request reply).reply request = reply := by
  cases request <;> rfl

def Happening.answer? : Happening → Option (Except Error Prepared)
  | .exchanged request result => some (result.map (Prepared.of request))
  | .emitted _ => none

def answers (own : List Happening) : Script := own.filterMap Happening.answer?

def Gateway.alone (g : Gateway σ) (horizon : Nat) : Gateway Script :=
  ⟨⟨Script.answer, fun _ => horizon⟩, g.table, g.retry, fun _ script => script⟩

theorem Script.answer_cons (request : Request) (result : Except Error request.Reply)
    (script : Script) :
    Script.answer request (result.map (Prepared.of request) :: script) = (result, script) := by
  cases result with
  | ok reply => simp [Except.map, Script.answer]
  | error error => rfl

theorem Task.Goes.carryOut_alone {task : Task α} {own : List Happening} {outcome : Outcome α}
    (h : task.Goes own outcome) (g : Gateway σ) (horizon : Nat) :
    (g.alone horizon).carryOut task (answers own) = ⟨outcome, [], own.map Happening.event⟩ := by
  induction h with
  | ended => rfl
  | @exchanged request answered result own outcome _ ih =>
    have hanswer : (g.alone horizon).store.answer request
        (answers (.exchanged request result :: own)) = (result, answers own) :=
      Script.answer_cons request result (answers own)
    have hstep (script : Script) : (g.alone horizon).carryOut (.ask request answered) script =
        ((g.alone horizon).carryOut (answered ((g.alone horizon).store.answer request script).1)
          ((g.alone horizon).store.answer request script).2).after
            (.asked request (refusal? ((g.alone horizon).store.answer request script).1)) := rfl
    rw [hstep, hanswer, ih]
    rfl
  | @emitted event rest own outcome _ ih =>
    have hevent : (g.alone horizon).receive event (answers own) = answers own := by
      cases event <;> rfl
    exact (congrArg (Ran.after event) ((congrArg _ hevent).trans ih))
  | paused _ ih => exact ih

def Part.Alone (g : Gateway σ) (s : σ) (action : Gateway Script → Action Script α)
    (part : Part α) : Prop :=
  action (g.alone (g.store.horizon s)) (answers part.own) =
    ⟨part.outcome, [], part.own.map Happening.event⟩

namespace Gateway

variable {g : Gateway σ} {pauses : Pauses}

theorem alone_writing (horizon rounds : Nat) (entries : List WriteEntry) :
    (g.alone horizon).writing pauses rounds entries = g.writing pauses rounds entries := by
  induction rounds generalizing entries with
  | zero => cases entries <;> rfl
  | succ rounds ih =>
    cases entries with
    | nil => rfl
    | cons entry entries =>
      simp only [writing, ih]
      rfl

theorem alone_getting (horizon rounds : Nat) (keys : List Item) :
    (g.alone horizon).getting pauses rounds keys = g.getting pauses rounds keys := by
  induction rounds generalizing keys with
  | zero => cases keys <;> rfl
  | succ rounds ih =>
    cases keys with
    | nil => rfl
    | cons key keys =>
      simp only [getting, ih]
      rfl

theorem alone_reading (horizon rounds : Nat) (prev : Option (Option Item)) (read : Read) :
    (g.alone horizon).reading pauses rounds prev read = g.reading pauses rounds prev read := by
  induction rounds generalizing prev read with
  | zero => rfl
  | succ rounds ih =>
    simp only [reading, ih]
    rfl

variable {s : σ}

theorem alone_writeOne {entries : List WriteEntry} {part : Part Unit}
    (h : part.Of (g.writeStart pauses entries s)) : part.Alone g s (·.writeOne entries) := by
  have halone := Task.Goes.carryOut_alone h g (g.store.horizon s)
  rwa [writeStart, ← alone_writing (g.store.horizon s), carryOut_writing] at halone

theorem alone_getOne {keys : List Item} {part : Part (List Item)}
    (h : part.Of (g.getStart pauses keys s)) : part.Alone g s (·.getOne keys) := by
  have halone := Task.Goes.carryOut_alone h g (g.store.horizon s)
  rwa [getStart, ← alone_getting (g.store.horizon s), carryOut_getting] at halone

theorem alone_readFrom {read : Read} {part : Part Unit}
    (h : part.Of (g.readStart pauses read s)) : part.Alone g s (·.readFrom (some none) read) := by
  have halone := Task.Goes.carryOut_alone h g (g.store.horizon s)
  rwa [readStart, ← alone_reading (g.store.horizon s), carryOut_reading] at halone

end Gateway

end KeyedTable
