import KeyedTable.Proofs.CommandLine.Asking
import KeyedTable.Proofs.Reading.Segments

namespace KeyedTable

variable {σ α β : Type}

def saysYes (line : String) : Bool :=
  (Text.trim line).toList.head?.any (fun c => c = 'y' || c = 'Y') || (Text.trim line).isEmpty

namespace Dialogue

theorem bind_assoc {γ : Type} (first : Dialogue α) (next : α → Dialogue β) (last : β → Dialogue γ) :
    (first.bind next).bind last = first.bind fun value => (next value).bind last := by
  induction first with
  | done value => rfl
  | tell output rest ih => exact congrArg (tell output) ih
  | ask question answer ih => exact congrArg (ask question) (funext ih)

theorem hold_sayAll (outputs : List Output) (rest : Dialogue α) (lines : List String) :
    (Command.sayAll outputs rest).hold lines =
      { rest.hold lines with outputs := outputs ++ (rest.hold lines).outputs } := by
  induction outputs with
  | nil => rfl
  | cons output outputs ih => simp only [Command.sayAll, hold, ih, List.cons_append]

end Dialogue

structure ScanRound (σ : Type) where
  start : Option (List (Option Item))
  found : σ
  line : String

namespace ScanRound

variable (call : Option (List (Option Item)) → Action σ Unit) (segments : Nat) (round : ScanRound σ)

def ran : Ran σ Unit := call round.start round.found

def pages : List Delivery := deliveries (round.ran call).events

def cursors : List (Option Item) := segmentCursors segments (round.pages call)

def pending : Nat := ((round.cursors call segments).filter Option.isSome).length

def result : Except Complaint Unit :=
  match (round.ran call).outcome with
  | .done _ => .ok ()
  | .failed error => .error (.failed error)
  | .unfinished => .error .unfinished

structure GoesOn : Prop where
  done : (round.ran call).outcome = .done ()
  pending : round.pending call segments ≠ 0
  wanted : saysYes round.line

inductive Stops : Except Complaint Unit → Prop
  | failed {error : Error} : (round.ran call).outcome = .failed error →
      Stops (.error (.failed error))
  | finished : (round.ran call).outcome = .done () →
      (∀ number, lastCursor (pagesOf number (round.ran call).events) = none) → Stops (.ok ())
  | declined : (round.ran call).outcome = .done () → ¬ saysYes round.line → Stops (.ok ())

def closing : List String :=
  match (round.ran call).outcome with
  | .done _ =>
    if round.pending call segments = 0 then ["All segments finished\n"]
    else [Command.question
      (s!"{round.pending call segments} segments have more items. Continue?" ++ " (y/n)")
      (some "y")]
  | _ => []

def outputs : List Output :=
  Command.shown (fun _ => Report.segmentLines) 0 (round.ran call).events ++
    (round.closing call segments).map .text

end ScanRound

namespace Command

variable {call : Option (List (Option Item)) → Action σ Unit} {segments : Nat}

theorem promptYes_bind (message : String) (next : Bool → Command σ α) (s : σ) :
    (promptYes message true >>= next) s =
      .ask (question (message ++ " (y/n)") (some "y")) fun line => next (saysYes line) s := by
  refine congrArg (Dialogue.ask _) (funext fun line => ?_)
  have hyes : saysYes line = ((Text.trim line).toList.head?.any (fun c => c = 'y' || c = 'Y') ||
      ((Text.trim line).isEmpty && true)) := by
    rw [saysYes, Bool.and_true]
  rw [hyes]
  rfl

theorem perform_bind (action : Action σ α) (lines : Nat → Delivery → List String) (number : Nat)
    (next : α × List Delivery → Command σ β) (s : σ) :
    (perform action lines number >>= next) s =
      sayAll (shown lines number (action s).events)
        (match (action s).outcome with
          | .done value => next (value, deliveries (action s).events) (action s).store
          | .failed error => .done (.error (.failed error), (action s).store)
          | .unfinished => .done (.error .unfinished, (action s).store)) := by
  show (sayAll _ _).bind _ = _
  rw [bind_sayAll]
  cases (action s).outcome <;> rfl

theorem segmentsOn_succ (rounds : Nat) (round : ScanRound σ) :
    segmentsOn call segments (rounds + 1) round.start round.found =
      sayAll (shown (fun _ => Report.segmentLines) 0 (round.ran call).events)
        (match (round.ran call).outcome with
          | .done _ =>
            if round.pending call segments = 0 then
              printLine "All segments finished" (round.ran call).store
            else .ask (question
                (s!"{round.pending call segments} segments have more items. Continue?" ++ " (y/n)")
                (some "y")) fun line =>
              if saysYes line then
                segmentsOn call segments rounds (some (round.cursors call segments))
                  (round.ran call).store
              else .done (.ok (), (round.ran call).store)
          | .failed error => .done (.error (.failed error), (round.ran call).store)
          | .unfinished => .done (.error .unfinished, (round.ran call).store)) := by
  have hran : call round.start round.found = round.ran call := rfl
  have hcursors : segmentCursors segments (deliveries (round.ran call).events) =
      round.cursors call segments := rfl
  have hpending : ((round.cursors call segments).filter Option.isSome).length =
      round.pending call segments := rfl
  rw [segmentsOn, perform_bind]
  simp only [hran, hcursors, hpending]
  refine congrArg (sayAll _) ?_
  cases (round.ran call).outcome with
  | failed error => rfl
  | unfinished => rfl
  | done value =>
    by_cases hnone : round.pending call segments = 0
    · simp only [if_pos hnone]
    · simp only [if_neg hnone, promptYes_bind]
      refine congrArg (Dialogue.ask _) (funext fun line => ?_)
      split
      · rfl
      · rfl

variable {round : ScanRound σ} {lines : List String}

theorem hold_segmentsOn_of_goesOn (rounds : Nat) (hline : round.line = lines.headD "")
    (h : round.GoesOn call segments) :
    let next := (segmentsOn call segments rounds (some (round.cursors call segments))
      (round.ran call).store).hold lines.tail
    (segmentsOn call segments (rounds + 1) round.start round.found).hold lines =
      { next with outputs := round.outputs call segments ++ next.outputs } := by
  intro next
  rw [segmentsOn_succ, Dialogue.hold_sayAll, h.done]
  simp only [if_neg h.pending, Dialogue.hold, ← hline, if_pos h.wanted, ScanRound.outputs,
    ScanRound.closing, h.done]
  simp [next]

theorem hold_segmentsOn_of_not_goesOn (rounds : Nat) (hline : round.line = lines.headD "")
    (h : ¬ round.GoesOn call segments) :
    let held := (segmentsOn call segments (rounds + 1) round.start round.found).hold lines
    held.value = (round.result call, (round.ran call).store) ∧
      held.outputs = round.outputs call segments := by
  intro held
  simp only [held, segmentsOn_succ, Dialogue.hold_sayAll, ScanRound.outputs, ScanRound.closing,
    ScanRound.result]
  cases houtcome : (round.ran call).outcome with
  | failed error => exact ⟨rfl, rfl⟩
  | unfinished => exact ⟨rfl, rfl⟩
  | done value =>
    by_cases hpending : round.pending call segments = 0
    · simp only [if_pos hpending]
      exact ⟨rfl, rfl⟩
    · have hwanted : ¬ saysYes round.line := fun hwanted => h ⟨houtcome, hpending, hwanted⟩
      simp only [if_neg hpending, Dialogue.hold, ← hline, if_neg hwanted]
      exact ⟨trivial, rfl⟩

end Command

/-- One round after the other, of so many at most. -/
structure RoundByRound (call : Option (List (Option Item)) → Action σ Unit) (segments bound : Nat)
    (start : Option (List (Option Item))) (s : σ) (lines : List String)
    (rounds : List (ScanRound σ)) (held : Dialogue.Held (Except Complaint Unit × σ)) : Prop where
  begins : ∀ round ∈ rounds.head?, round.start = start ∧ round.found = s
  starts : ∀ round ∈ rounds, round.start = start ∨
    ∃ pages, round.start = some (segmentCursors segments pages)
  answered : ∀ i, ∀ round ∈ rounds[i]?, round.line = lines.getD i ""
  goesOn : rounds.IsChain fun round next => round.GoesOn call segments ∧
    next.start = some (round.cursors call segments) ∧ next.found = (round.ran call).store
  ends : match rounds.getLast? with
    | none => bound = 0 ∧ held.value = (.error .unfinished, s)
    | some last => held.value.2 = (last.ran call).store ∧
      (¬ last.GoesOn call segments ∧ held.value.1 = last.result call ∨
        last.GoesOn call segments ∧ held.value.1 = .error .unfinished ∧ rounds.length = bound)
  outputs : held.outputs = rounds.flatMap (ScanRound.outputs call segments)

namespace RoundByRound

variable {call : Option (List (Option Item)) → Action σ Unit} {segments bound : Nat}
  {lines : List String} {round : ScanRound σ} {rounds : List (ScanRound σ)}
  {held : Dialogue.Held (Except Complaint Unit × σ)}

theorem single (hline : round.line = lines.headD "") (h : ¬ round.GoesOn call segments)
    (hvalue : held.value = (round.result call, (round.ran call).store))
    (houtputs : held.outputs = round.outputs call segments) :
    RoundByRound call segments (bound + 1) round.start round.found lines [round] held where
  begins other hother := by cases hother; exact ⟨rfl, rfl⟩
  starts other hother := by cases List.mem_singleton.mp hother; exact .inl rfl
  answered i other hother := by
    cases i with
    | zero =>
      cases hother
      rw [hline]
      cases lines <;> rfl
    | succ i => cases hother
  goesOn := List.isChain_singleton round
  ends := by
    rw [hvalue]
    exact ⟨rfl, .inl ⟨h, rfl⟩⟩
  outputs := by rw [houtputs, List.flatMap_singleton]

theorem cons (hline : round.line = lines.headD "") (h : round.GoesOn call segments)
    (hrest : RoundByRound call segments bound (some (round.cursors call segments))
      (round.ran call).store lines.tail rounds held) :
    RoundByRound call segments (bound + 1) round.start round.found lines (round :: rounds)
      { held with outputs := round.outputs call segments ++ held.outputs } where
  begins other hother := by cases hother; exact ⟨rfl, rfl⟩
  starts := by
    refine List.forall_mem_cons.mpr ⟨.inl rfl, fun other hother => ?_⟩
    exact .inr ((hrest.starts other hother).elim (fun heq => ⟨_, heq⟩) id)
  answered i other hother := by
    cases i with
    | zero =>
      cases hother
      rw [hline]
      cases lines <;> rfl
    | succ i =>
      rw [hrest.answered i other hother]
      cases lines <;> simp
  goesOn := List.isChain_cons.mpr ⟨fun next hnext => ⟨h, hrest.begins next hnext⟩, hrest.goesOn⟩
  ends := by
    have hends := hrest.ends
    rw [List.getLast?_cons]
    cases hlast : rounds.getLast? with
    | none =>
      rw [hlast] at hends
      obtain ⟨rfl, hvalue⟩ := hends
      obtain rfl := List.getLast?_eq_none_iff.mp hlast
      exact ⟨congrArg Prod.snd hvalue, .inr ⟨h, congrArg Prod.fst hvalue, rfl⟩⟩
    | some last =>
      rw [hlast] at hends
      obtain ⟨hstore, hends⟩ := hends
      refine ⟨hstore, hends.imp_right fun ⟨hgoesOn, hvalue, hlength⟩ => ?_⟩
      exact ⟨hgoesOn, hvalue, congrArg (· + 1) hlength⟩
  outputs := by rw [List.flatMap_cons, hrest.outputs]

end RoundByRound

theorem Command.exists_rounds (call : Option (List (Option Item)) → Action σ Unit)
    (segments bound : Nat) (start : Option (List (Option Item))) (s : σ) (lines : List String) :
    ∃ rounds, RoundByRound call segments bound start s lines rounds
      ((segmentsOn call segments bound start s).hold lines) := by
  induction bound generalizing start s lines with
  | zero =>
    exact ⟨[], by simp, by simp, by simp, .nil, ⟨rfl, rfl⟩, rfl⟩
  | succ bound ih =>
    let round : ScanRound σ := ⟨start, s, lines.headD ""⟩
    by_cases h : round.GoesOn call segments
    · obtain ⟨rounds, hrounds⟩ := ih (some (round.cursors call segments)) (round.ran call).store
        lines.tail
      have hheld := hold_segmentsOn_of_goesOn bound (show round.line = lines.headD "" from rfl) h
      exact ⟨round :: rounds, hheld ▸ hrounds.cons rfl h⟩
    · obtain ⟨hvalue, houtputs⟩ :=
        hold_segmentsOn_of_not_goesOn bound (show round.line = lines.headD "" from rfl) h
      exact ⟨[round], .single rfl h hvalue houtputs⟩

def printed (outputs : List Output) : List String :=
  outputs.filterMap fun
    | .text text => some text
    | _ => none

theorem printed_append (before after : List Output) :
    printed (before ++ after) = printed before ++ printed after :=
  List.filterMap_append

theorem printed_texts (texts : List String) : printed (texts.map .text) = texts := by
  simp [printed, List.filterMap_map]

inductive Item.StandsIn (item : Item) : String → Prop
  | data {data} : item.toJson = .ok data → StandsIn item (data.write ++ "\n")
  | attributes {error} : item.toJson = .error error → StandsIn item (item.display ++ "\n")

/-- The lines for a page: a heading with the number of the segment, every item, and a rule. -/
inductive Delivery.StandsIn (page : Delivery) : List String → Prop
  | page {lines} (width : Nat) : List.Forall₂ Item.StandsIn page.items lines →
      StandsIn page (("\n--- Segment " ++ toString page.segment ++ " Results ---\n") :: lines ++
        [String.ofList (List.replicate width '-') ++ "\n"])

def StandIn (pages : List Delivery) (texts : List String) : Prop :=
  ∃ blocks, List.Forall₂ Delivery.StandsIn pages blocks ∧ texts = blocks.flatten

theorem Item.standsIn_itemText (item : Item) : item.StandsIn (Report.itemText item ++ "\n") := by
  unfold Report.itemText
  split
  next hdata => exact .data hdata
  next herror => exact .attributes herror

theorem Delivery.standsIn_segmentLines (page : Delivery) :
    page.StandsIn ((Report.segmentLines page).map (· ++ "\n")) := by
  have hitems : List.Forall₂ Item.StandsIn page.items
      ((page.items.map Report.itemText).map (· ++ "\n")) := by
    simp only [List.forall₂_map_right_iff]
    exact List.forall₂_same.mpr fun item _ => item.standsIn_itemText
  have hheading : "\n--- Segment " ++ toString page.segment ++ " Results ---\n" =
      "\n--- " ++ ("Segment " ++ toString page.segment ++ " Results") ++ " ---" ++ "\n" := by
    have hbefore : "\n--- Segment " = "\n--- " ++ "Segment " := rfl
    have hafter : " Results ---\n" = " Results" ++ (" ---" ++ "\n") := rfl
    rw [hbefore, hafter]
    simp only [String.append_assoc]
  have hpage : page.StandsIn (_ :: _ ++ _) :=
    .page ((s!"Segment {page.segment} Results").utf8ByteSize + 8) hitems
  rw [hheading] at hpage
  rw [Report.segmentLines, Report.pageLines, Report.titled, List.map_append, List.map_cons]
  exact hpage

theorem standIn_shown (number : Nat) (events : List Event) :
    StandIn (deliveries events)
      (printed (Command.shown (fun _ => Report.segmentLines) number events)) := by
  induction events generalizing number with
  | nil => exact ⟨[], .nil, rfl⟩
  | cons event events ih =>
    cases event with
    | delivered page =>
      obtain ⟨blocks, hblocks, htexts⟩ := ih (number + 1)
      have hpage : printed ((Report.segmentLines page).map fun line => .text (line ++ "\n")) =
          (Report.segmentLines page).map (· ++ "\n") := by
        rw [← printed_texts ((Report.segmentLines page).map (· ++ "\n")), List.map_map]
        rfl
      refine ⟨_ :: blocks, .cons page.standsIn_segmentLines hblocks, ?_⟩
      rw [List.flatten_cons, ← htexts, ← hpage]
      exact printed_append _ _
    | _ => exact ih number

theorem ScanRound.exists_printed (call : Option (List (Option Item)) → Action σ Unit)
    (segments : Nat) (round : ScanRound σ) :
    ∃ texts, StandIn (round.pages call) texts ∧
      printed (round.outputs call segments) = texts ++ round.closing call segments := by
  refine ⟨_, standIn_shown 0 (round.ran call).events, ?_⟩
  rw [outputs, printed_append, printed_texts]

def ScanRound.LeavesFinished (call : Option (List (Option Item)) → Action σ Unit)
    (round later : ScanRound σ) : Prop :=
  ∀ number, lastCursor (pagesOf number (round.ran call).events) = none →
    Untouched number (later.ran call).events

instance (call : Option (List (Option Item)) → Action σ Unit) :
    Trans (ScanRound.LeavesFinished call) (ScanRound.LeavesFinished call)
      (ScanRound.LeavesFinished call) where
  trans h h' number hfinished := h' number (by rw [(h number hfinished).2]; rfl)

/-- In every round, the segments go on by some schedule. -/
def Gateway.Scheduled (g : Gateway σ) (segments : Nat) (options : ScanOptions)
    (call : Option (List (Option Item)) → Action σ Unit) : Prop :=
  ∀ start s, ∃ pauses schedule,
    call start s = g.scanTogether pauses schedule segments options start s

/-- A scan in segments that is held on the terminal, round by round. -/
structure Gateway.ScansOn (g : Gateway σ) (segments : Nat) (options : ScanOptions)
    (call : Option (List (Option Item)) → Action σ Unit) (s : σ) (lines : List String)
    (rounds : List (ScanRound σ)) (held : Dialogue.Held (Except Complaint Unit × σ)) : Prop
    extends RoundByRound call segments (g.store.horizon s + 1) none s lines rounds held where
  parts : ∀ round ∈ rounds, ∃ reads pauses parts whole,
    g.scanReads segments options round.start = .ok reads ∧
      g.Parted round.found (reads.map (g.readStart pauses)) (fun _ => ()) (round.ran call) parts
        whole
  first : ∃ round ∈ rounds.head?, ∀ number,
    (readsOf number (round.ran call).events).head?.map Read.start =
      if number < segments then some none else none
  next : rounds.IsChain fun round later => ∀ number,
    (readsOf number (later.ran call).events).head?.map Read.start =
      (lastCursor (pagesOf number (round.ran call).events)).map some
  finished : rounds.Pairwise (ScanRound.LeavesFinished call)
  projected : ∀ round ∈ rounds, Projected g.table options.index (round.ran call).events
  stops : held.value.1 ≠ .error .unfinished →
    ∃ last ∈ rounds.getLast?, last.Stops call held.value.1
  texts : ∃ texts, List.Forall₂ (fun round texts => ∃ pages, StandIn (round.pages call) pages ∧
      texts = pages ++ round.closing call segments) rounds texts ∧
    printed held.outputs = texts.flatten

namespace Gateway

variable {g : Gateway σ} {segments : Nat} {options : ScanOptions} {test : Option Condition}
  {call : Option (List (Option Item)) → Action σ Unit} {s : σ} {lines : List String}

section

variable {bound : Nat} {rounds : List (ScanRound σ)}
  {held : Dialogue.Held (Except Complaint Unit × σ)}

theorem exists_reads (hsegments : 0 < segments) (hlimit : options.limit ≠ some 0)
    (hfilter : Filters options.filter test)
    (h : RoundByRound call segments bound none s lines rounds held) {round : ScanRound σ}
    (hround : round ∈ rounds) :
    ∃ reads, g.scanReads segments options round.start = .ok reads := by
  refine ⟨_, scanReads_of_filters hfilter hlimit ?_⟩
  obtain hstart | ⟨pages, hstart⟩ := h.starts round hround
  · rw [hstart]
    simp [checkCursors, Nat.ne_of_gt hsegments]
  · rw [hstart]
    exact checkCursors_segmentCursors hsegments pages

theorem begins_first (hcall : g.Scheduled segments options call) {reads : List Read}
    (hreads : g.scanReads segments options none = .ok reads) (s : σ) (number : Nat) :
    (readsOf number (call none s).events).head?.map Read.start =
      if number < segments then some none else none := by
  obtain ⟨pauses, schedule, hran⟩ := hcall none s
  refine Option.ext fun first => ?_
  rw [hran, begins_scanTogether hreads]
  by_cases hnumber : number < segments
  · simp [segmentStarts, hnumber, eq_comm]
  · simp [segmentStarts, hnumber]

theorem lt_of_pagesOf_round (hcall : g.Scheduled segments options call) {round : ScanRound σ}
    {reads : List Read} (hreads : g.scanReads segments options round.start = .ok reads)
    {number : Nat} (h : pagesOf number (round.ran call).events ≠ []) : number < segments := by
  obtain ⟨pauses, schedule, hran⟩ := hcall round.start round.found
  rw [ScanRound.ran, hran] at h
  exact lt_of_pagesOf hreads round.found h

theorem begins_next (hcall : g.Scheduled segments options call) {round later : ScanRound σ}
    {reads others : List Read} (hreads : g.scanReads segments options round.start = .ok reads)
    (hothers : g.scanReads segments options later.start = .ok others)
    (hstart : later.start = some (round.cursors call segments)) (number : Nat) :
    (readsOf number (later.ran call).events).head?.map Read.start =
      (lastCursor (pagesOf number (round.ran call).events)).map some := by
  obtain ⟨pauses, schedule, hran⟩ := hcall later.start later.found
  refine Option.ext fun first => ?_
  rw [ScanRound.ran, hran, begins_scanTogether hothers, hstart, Option.map_eq_some_iff]
  refine mem_nextStarts.trans ?_
  constructor
  · rintro ⟨-, key, hlast, hfirst⟩
    exact ⟨key, hlast, hfirst.symm⟩
  · rintro ⟨key, hlast, hfirst⟩
    refine ⟨lt_of_pagesOf_round hcall hreads fun hnone => ?_, key, hlast, hfirst.symm⟩
    rw [hnone] at hlast
    cases hlast

theorem pending_eq_zero_iff (hcall : g.Scheduled segments options call) {round : ScanRound σ}
    {reads : List Read} (hreads : g.scanReads segments options round.start = .ok reads) :
    round.pending call segments = 0 ↔
      ∀ number, lastCursor (pagesOf number (round.ran call).events) = none := by
  have hnone : round.pending call segments = 0 ↔
      (round.cursors call segments).all Option.isNone = true := by
    simp [ScanRound.pending, List.length_eq_zero_iff, List.filter_eq_nil_iff, List.all_eq_true]
  refine hnone.trans ((segmentCursors_all_isNone _).trans ⟨fun h number => ?_, fun h n _ => h n⟩)
  by_cases hpages : pagesOf number (round.ran call).events = []
  · rw [hpages]
    rfl
  · exact h number (lt_of_pagesOf_round hcall hreads hpages)

theorem exists_stops (hcall : g.Scheduled segments options call)
    (h : RoundByRound call segments (bound + 1) none s lines rounds held)
    (hreads : ∀ round ∈ rounds, ∃ reads, g.scanReads segments options round.start = .ok reads)
    (hends : held.value.1 ≠ .error .unfinished) :
    ∃ last ∈ rounds.getLast?, last.Stops call held.value.1 := by
  have hlast := h.ends
  split at hlast
  next => exact absurd hlast.1 (Nat.succ_ne_zero bound)
  next last hmem =>
    obtain ⟨-, ⟨hstops, hresult⟩ | ⟨-, hunfinished, -⟩⟩ := hlast
    · refine ⟨last, hmem, ?_⟩
      rw [ScanRound.result] at hresult
      cases houtcome : (last.ran call).outcome with
      | failed error =>
        rw [hresult, houtcome]
        exact .failed houtcome
      | unfinished => exact absurd (by rw [hresult, houtcome]) hends
      | done value =>
        rw [hresult, houtcome]
        obtain ⟨reads, hreads⟩ := hreads last (List.mem_of_getLast? hmem)
        by_cases hpending : last.pending call segments = 0
        · exact .finished houtcome ((pending_eq_zero_iff hcall hreads).mp hpending)
        · exact .declined houtcome fun hyes => hstops ⟨houtcome, hpending, hyes⟩
    · exact absurd hunfinished hends

theorem exists_texts (h : RoundByRound call segments bound none s lines rounds held) :
    ∃ texts, List.Forall₂ (fun round texts => ∃ pages, StandIn (round.pages call) pages ∧
        texts = pages ++ round.closing call segments) rounds texts ∧
      printed held.outputs = texts.flatten := by
  refine ⟨rounds.map fun round => printed (round.outputs call segments), ?_, ?_⟩
  · exact List.forall₂_map_right_iff.mpr
      (List.forall₂_same.mpr fun round _ => round.exists_printed call segments)
  · rw [h.outputs, printed, List.filterMap_flatMap, List.flatMap_def]
    rfl

end

theorem exists_scansOn (hsegments : 0 < segments) (hlimit : options.limit ≠ some 0)
    (hfilter : Filters options.filter test) (hcall : g.Scheduled segments options call) (s : σ)
    (lines : List String) :
    ∃ rounds, g.ScansOn segments options call s lines rounds
      ((Command.segmentsOn call segments (g.store.horizon s + 1) none s).hold lines) := by
  obtain ⟨rounds, hrounds⟩ :=
    Command.exists_rounds call segments (g.store.horizon s + 1) none s lines
  have hreads {round : ScanRound σ} (hround : round ∈ rounds) :
      ∃ reads, g.scanReads segments options round.start = .ok reads :=
    exists_reads hsegments hlimit hfilter hrounds hround
  have hnext : rounds.IsChain fun round later => ∀ number,
      (readsOf number (later.ran call).events).head?.map Read.start =
        (lastCursor (pagesOf number (round.ran call).events)).map some := by
    refine hrounds.goesOn.imp_of_mem_imp fun round later hround hlater ⟨_, hstart, _⟩ number => ?_
    obtain ⟨reads, hreads'⟩ := hreads hround
    obtain ⟨others, hothers⟩ := hreads hlater
    exact begins_next hcall hreads' hothers hstart number
  refine ⟨rounds, hrounds, fun round hround => ?_, ?_, hnext, ?_, fun round hround => ?_,
    exists_stops hcall hrounds fun _ hround => hreads hround, exists_texts hrounds⟩
  · obtain ⟨reads, hreads⟩ := hreads hround
    obtain ⟨pauses, schedule, hran⟩ := hcall round.start round.found
    obtain ⟨parts, whole, hparted⟩ :=
      g.exists_parted_scanTogether round.found pauses schedule hreads
    exact ⟨reads, pauses, parts, whole, hreads, by rwa [ScanRound.ran, hran]⟩
  · cases hfirst : rounds.head? with
    | none =>
      -- There is a round, since there may be one.
      obtain rfl := List.head?_eq_none_iff.mp hfirst
      exact absurd hrounds.ends.1 (Nat.succ_ne_zero _)
    | some round =>
      obtain ⟨hstart, -⟩ := hrounds.begins round hfirst
      obtain ⟨reads, hreads⟩ := hreads (List.mem_of_mem_head? hfirst)
      refine ⟨round, rfl, fun number => ?_⟩
      rw [hstart] at hreads
      rw [ScanRound.ran, hstart]
      exact begins_first hcall hreads round.found number
  · refine (hnext.imp_of_mem_imp fun round later _ hlater hbegins number hfinished => ?_).pairwise
    obtain ⟨reads, hreads⟩ := hreads hlater
    obtain ⟨pauses, schedule, hran⟩ := hcall later.start later.found
    have hnone := hbegins number
    rw [hfinished, Option.map_none, Option.map_eq_none_iff, List.head?_eq_none_iff] at hnone
    rw [ScanRound.ran, hran] at hnone ⊢
    exact untouched_scanTogether hreads later.found hnone
  · obtain ⟨reads, hreads⟩ := hreads hround
    obtain ⟨pauses, schedule, hran⟩ := hcall round.start round.found
    rw [ScanRound.ran, hran]
    exact projected_scanTogether hreads round.found

end Gateway

namespace Command

theorem bind_assoc {γ : Type} (first : Command σ α) (next : α → Command σ β)
    (last : β → Command σ γ) :
    (first >>= next) >>= last = first >>= fun value => next value >>= last := by
  funext s
  refine (Dialogue.bind_assoc _ _ _).trans ?_
  refine congrArg (Dialogue.bind (first s)) (funext fun result => ?_)
  obtain ⟨result, t⟩ := result
  cases result with
  | ok value => rfl
  | error complaint => rfl

def scanQuestions : Command σ (Nat × ScanOptions) := do
  let segments ← count "number of segments" (← prompt "Enter number of segments" (some "4"))
  let options ← promptScanOptions
  return (segments, options)

end Command

theorem Gateway.segmentsCommand_eq (g : Gateway σ)
    (call : Nat → ScanOptions → Option (List (Option Item)) → Action σ Unit) :
    g.segmentsCommand call = Command.scanQuestions >>= fun asked => g.rounds fun rounds =>
      Command.segmentsOn (call asked.1 asked.2) asked.1 rounds none := by
  simp only [segmentsCommand, Command.scanQuestions, Command.bind_assoc]
  rfl

/-- A scan in segments goes on from round to round, each segment from its own cursor: the first
round reads every segment from its beginning, and a later one just those that are not finished, each
from where its last page of the round before says that the next one begins. It comes to its end when
a segment fails, when no segment has a cursor left, or when no more is wanted, and by then every
page has been printed once. It is the same by whatever schedule the segments of a round go on. On a
store that has only so much to say it does come to its end. -/
theorem segments_resumed (g : Gateway σ) {s : σ} {lines answers : List String} {segments : Nat}
    {options : ScanOptions} {questions : List Output}
    (hasked : (Command.scanQuestions s).hold lines =
      ⟨(.ok (segments, options), s), answers, questions⟩)
    (hsegments : 0 < segments) (_hheld : segments ≤ Gateway.segmentCapacity)
    (hlimit : options.limit ≠ some 0) {test : Option Condition}
    (hfilter : Filters options.filter test) :
    let Resumed (call : Option (List (Option Item)) → Action σ Unit)
        (whole : Dialogue.Held (Except Complaint Unit × σ)) :=
      ∃ rounds held, g.ScansOn segments options call s answers rounds held ∧
        whole = { held with outputs := questions ++ held.outputs } ∧
        (g.Dwindles → held.value.1 ≠ .error .unfinished)
    Resumed (g.parallelScan segments options) ((g.parallelScanCommand s).hold lines) ∧
    ∀ call, g.Scheduled segments options (call segments options) →
      Resumed (call segments options) ((g.segmentsCommand call s).hold lines) := by
  intro Resumed
  have hresumed (call : Nat → ScanOptions → Option (List (Option Item)) → Action σ Unit)
      (hcall : g.Scheduled segments options (call segments options)) :
      Resumed (call segments options) ((g.segmentsCommand call s).hold lines) := by
    obtain ⟨rounds, hrounds⟩ :=
      Gateway.exists_scansOn hsegments hlimit hfilter hcall s answers
    refine ⟨rounds, _, hrounds, ?_, fun hdwindles => ?_⟩
    · rw [g.segmentsCommand_eq]
      refine (Dialogue.hold_bind _ _ _).trans ?_
      rw [hasked]
      rfl
    · have hpasses (start : Option (List (Option Item))) :
          (call segments options start).Passes (fun _ => True) g.Spends := by
        intro t _
        obtain ⟨pauses, schedule, hran⟩ := hcall start t
        rw [hran]
        exact hdwindles.scanTogether pauses schedule segments options start t trivial
      exact (Gateway.within_segmentsOn hpasses segments none (Nat.lt_succ_self _) answers).ends
  refine ⟨hresumed g.parallelScan fun start t => ⟨⟨false, false⟩, [], ?_⟩, hresumed⟩
  exact (Gateway.scanTogether_unpaused [] segments options start t).symm

theorem segments_resumed_of_two :
    let table : Table := ⟨"orders", ⟨"user", none⟩, .empty⟩
    let key (user : String) : Item := SortedMap.empty.insert "user" (.string user)
    let item (user : String) : Item := (key user).insert "paid" (.boolean true)
    let g : Gateway Script := ⟨Store.script, table, .standard, fun _ s => s⟩
    let script : Script := [.ok ⟨none, [item "a"], [], [], some (item "a")⟩,
      .ok ⟨none, [item "b"], [], [], none⟩, .ok ⟨none, [item "c"], [], [], none⟩]
    let lines := ["2", "", "paid = true", "1"]
    let held := (g.parallelScanCommand script).hold lines
    let options : ScanOptions := ⟨none, some "paid = true", some 1⟩
    let paused (segments : Nat) (options : ScanOptions) :=
      g.scanTogether ⟨true, true⟩ [1, 0] segments options
    (∃ rounds rest, g.ScansOn 2 options (g.parallelScan 2 options) script [] rounds rest ∧
      held.value = rest.value) ∧
    (∃ rounds rest, g.ScansOn 2 options (paused 2 options) script [] rounds rest ∧
      ((g.segmentsCommand paused script).hold lines).value = rest.value) ∧
    (held.outputs.filterMap fun
      | .event (.asked (.read read) _) => some (read.scope, read.start)
      | _ => none) =
        [(.segment 0 2, none), (.segment 1 2, none), (.segment 0 2, some (key "a"))] ∧
    held.value.1 = .ok () := by
  intro table key item g script lines held options paused
  have hasked : (Command.scanQuestions script).hold lines =
      ⟨(.ok (2, ⟨none, some "paid = true", some 1⟩), script), [],
        ((Command.scanQuestions script).hold lines).outputs⟩ := by
    have hsegments : Decimal.readCount (Text.trim "2") = .ok 2 := by decide +kernel
    have hindex : Text.trim "" = "" := by decide +kernel
    have hfilter : Text.trim "paid = true" = "paid = true" := by decide +kernel
    have hlimit : Text.trim "1" = "1" := by decide +kernel
    have hcount : Decimal.readCount "1" = .ok 1 := by decide +kernel
    simp [lines, Command.scanQuestions, Command.promptScanOptions, Command.promptIndex,
      Command.promptFilter, Command.promptLimit, Command.promptOptional, Command.prompt,
      Command.count, Command.ofExcept, bind, Command.bind, pure, Command.done, Dialogue.bind,
      Dialogue.hold, hsegments, hindex, hfilter, hlimit, hcount]
  have hfilter : Filters (some "paid = true")
      (some (.compare ⟨"paid", []⟩ .equal (.boolean true))) :=
    .reads (by with_unfolding_all rfl)
  obtain ⟨hinTurn, htogether⟩ := segments_resumed g hasked (show 0 < 2 by decide) (by decide)
    (show some 1 ≠ some 0 by decide) hfilter
  obtain ⟨rounds, rest, hrounds, hheld, -⟩ := hinTurn
  obtain ⟨others, last, hothers, hlast, -⟩ :=
    htogether paused fun start s => ⟨⟨true, true⟩, [1, 0], rfl⟩
  have hvalue := congrArg Dialogue.Held.value hheld
  have hother := congrArg Dialogue.Held.value hlast
  refine ⟨⟨rounds, rest, hrounds, hvalue⟩, ⟨others, last, hothers, hother⟩, ?_, ?_⟩
  · decide +kernel
  · decide +kernel

end KeyedTable
