import KeyedTable.CommandLine
import KeyedTable.Proofs.Gateway.Dwindling

namespace KeyedTable

variable {σ α β : Type}

namespace Dialogue

def prompts : Dialogue α → List String → Nat
  | .done _, _ => 0
  | .tell _ rest, lines => rest.prompts lines
  | .ask _ answer, lines => (answer (lines.headD "")).prompts lines.tail + 1

theorem prompts_bind (first : Dialogue α) (next : α → Dialogue β) (lines : List String) :
    (first.bind next).prompts lines =
      first.prompts lines + (next (first.hold lines).value).prompts (first.hold lines).unread := by
  induction first generalizing lines with
  | done value => exact (Nat.zero_add _).symm
  | tell output rest ih => exact ih lines
  | ask question answer ih =>
    rw [bind, prompts, ih, prompts, Nat.add_right_comm]
    rfl

theorem unread_eq_drop (dialogue : Dialogue α) (lines : List String) :
    (dialogue.hold lines).unread = lines.drop (dialogue.prompts lines) := by
  induction dialogue generalizing lines with
  | done value => rfl
  | tell output rest ih => exact ih lines
  | ask question answer ih =>
    rw [prompts, ← List.drop_tail]
    exact ih _ _

structure Within (horizon : σ → Nat) (bound : Nat) (lines : List String)
    (dialogue : Dialogue (Except Complaint α × σ)) : Prop where
  ends : (dialogue.hold lines).value.1 ≠ .error .unfinished
  prompts : dialogue.prompts lines + horizon (dialogue.hold lines).value.2 ≤ bound

namespace Within

variable {horizon : σ → Nat} {bound : Nat} {lines : List String} {s : σ}

theorem mono {more : Nat} {dialogue : Dialogue (Except Complaint α × σ)}
    (h : dialogue.Within horizon bound lines) (hmore : bound ≤ more) :
    dialogue.Within horizon more lines :=
  ⟨h.ends, Nat.le_trans h.prompts hmore⟩

theorem done {result : Except Complaint α} (hends : result ≠ .error .unfinished)
    (hs : horizon s ≤ bound) : Within horizon bound lines (.done (result, s)) :=
  ⟨hends, by rw [Dialogue.prompts, Nat.zero_add]; exact hs⟩

theorem tell {output : Output} {rest : Dialogue (Except Complaint α × σ)}
    (h : rest.Within horizon bound lines) : Within horizon bound lines (.tell output rest) :=
  ⟨h.ends, h.prompts⟩

theorem ask {question : String} {answer : String → Dialogue (Except Complaint α × σ)}
    (h : ∀ line, (answer line).Within horizon bound lines.tail) :
    Within horizon (bound + 1) lines (.ask question answer) := by
  refine ⟨(h _).ends, ?_⟩
  have := (h (lines.headD "")).prompts
  simp only [Dialogue.prompts, hold]
  omega

theorem bind {first : Dialogue (Except Complaint α × σ)} {more : Nat}
    {next : Except Complaint α × σ → Dialogue (Except Complaint β × σ)}
    (h : first.Within horizon bound lines)
    (hnext : ∀ result t, result ≠ .error .unfinished → ∀ lines,
      (next (result, t)).Within horizon (more + horizon t) lines) :
    (first.bind next).Within horizon (more + bound) lines := by
  have hrest : (next (first.hold lines).value).Within horizon
      (more + horizon (first.hold lines).value.2) (first.hold lines).unread :=
    hnext _ _ h.ends _
  refine ⟨?_, ?_⟩
  · rw [hold_bind]
    exact hrest.ends
  · have := h.prompts
    have := hrest.prompts
    rw [prompts_bind, hold_bind]
    simp only
    omega

end Within

end Dialogue

namespace Command

/-- How much the command asks, whatever the lines are: so many questions, and one more for each
thing that the store has said and need not say again. -/
def Asks (horizon : σ → Nat) (n : Nat) (command : Command σ α) : Prop :=
  ∀ s lines, (command s).Within horizon (n + horizon s) lines

namespace Asks

variable {horizon : σ → Nat} {n m : Nat}

theorem mono {command : Command σ α} (h : command.Asks horizon n) (hm : n ≤ m) :
    command.Asks horizon m :=
  fun s lines => (h s lines).mono (Nat.add_le_add_right hm _)

theorem done (value : α) : Asks horizon 0 (pure value : Command σ α) :=
  fun _ _ => .done nofun (Nat.le_add_left _ _)

theorem fail (complaint : Complaint) (h : complaint ≠ .unfinished) :
    Asks horizon 0 (Command.fail complaint : Command σ α) :=
  fun _ _ => .done (fun heq => h (Except.error.inj heq)) (Nat.le_add_left _ _)

theorem bind {first : Command σ α} {next : α → Command σ β} (h : first.Asks horizon n)
    (hnext : ∀ value, (next value).Asks horizon m) : (first >>= next).Asks horizon (n + m) := by
  intro s lines
  have hboth : (Command.bind first next s).Within horizon (m + (n + horizon s)) lines := by
    refine (h s lines).bind fun result t hends lines => ?_
    cases result with
    | ok value => exact hnext value t lines
    | error complaint =>
      exact .done (fun heq => hends (congrArg _ (Except.error.inj heq))) (Nat.le_add_left _ _)
  exact hboth.mono (by omega)

theorem say (output : Output) : (Command.say output : Command σ Unit).Asks horizon 0 :=
  fun _ _ => .tell (.done nofun (Nat.le_add_left _ _))

theorem printLines (lines : List String) :
    (Command.printLines lines : Command σ Unit).Asks horizon 0 := by
  induction lines with
  | nil => exact done ()
  | cons line lines ih => exact (say _).bind fun _ => ih

theorem ofExcept {ε : Type} (complain : ε → Complaint) {result : Except ε α}
    (h : ∀ error, result = .error error → complain error ≠ .unfinished) :
    (Command.ofExcept complain result : Command σ α).Asks horizon 0 := by
  cases result with
  | ok value => exact done value
  | error error => exact fail _ (h error rfl)

theorem prompt (message : String) (sample : Option String) :
    (Command.prompt message sample : Command σ String).Asks horizon 1 := by
  intro s lines
  rw [Nat.add_comm]
  exact .ask fun _ => .done nofun (Nat.le_refl _)

theorem promptOptional (message sample : String) :
    (Command.promptOptional message sample : Command σ (Option String)).Asks horizon 1 :=
  (prompt _ _).bind fun _ => done _

theorem promptYes (message : String) (standard : Bool) :
    (Command.promptYes message standard : Command σ Bool).Asks horizon 1 :=
  (prompt _ _).bind fun _ => done _

theorem count (what text : String) : (Command.count what text : Command σ Nat).Asks horizon 0 :=
  ofExcept _ fun _ _ => nofun

theorem promptLimit : (Command.promptLimit : Command σ (Option Nat)).Asks horizon 1 := by
  refine (promptOptional _ _).bind (m := 0) fun text => ?_
  cases text with
  | none => exact done none
  | some text => exact (count _ text).bind fun _ => done _

theorem promptScanOptions :
    (Command.promptScanOptions : Command σ ScanOptions).Asks horizon 3 :=
  (promptOptional _ _).bind (m := 2) fun _ => (promptOptional _ _).bind (m := 1) fun _ =>
    promptLimit.bind fun _ => done _

theorem promptKey (names : List String) :
    (Command.promptKey names : Command σ Item).Asks horizon names.length := by
  have hfold : ∀ item : Item, (names.foldlM (fun item name => do
      let value ← Command.prompt ("Enter " ++ name) none
      return item.insert name (.string value)) item : Command σ Item).Asks horizon
        names.length := by
    induction names with
    | nil => exact fun item => done item
    | cons name names ih =>
      intro item
      rw [List.foldlM_cons, List.length_cons, Nat.add_comm]
      exact ((prompt _ _).bind fun _ => done _).bind fun item => ih item
  exact hfold .empty

end Asks

theorem bind_sayAll (outputs : List Output) (rest : Dialogue α) (next : α → Dialogue β) :
    (sayAll outputs rest).bind next = sayAll outputs (rest.bind next) := by
  induction outputs with
  | nil => rfl
  | cons output outputs ih => exact congrArg (Dialogue.tell output) ih

theorem within_sayAll {horizon : σ → Nat} {bound : Nat} {lines : List String}
    {outputs : List Output} {rest : Dialogue (Except Complaint α × σ)}
    (h : rest.Within horizon bound lines) : (sayAll outputs rest).Within horizon bound lines := by
  induction outputs with
  | nil => exact h
  | cons output outputs ih => exact ih.tell

end Command

namespace Gateway

variable {g : Gateway σ}

open Command Dialogue

theorem within_perform_bind {action : Action σ α} (haction : action.Passes (fun _ => True) g.Spends)
    {next : α × List Delivery → Command σ β} {shown : Nat → Delivery → List String} {number : Nat}
    {s : σ} {bound : Nat} {lines : List String} (hbound : g.store.horizon s ≤ bound)
    (hnext : ∀ value, (action s).outcome = .done value →
      (next (value, deliveries (action s).events) (action s).store).Within g.store.horizon bound
        lines) :
    ((Command.perform action shown number >>= next) s).Within g.store.horizon bound lines := by
  obtain ⟨hends, -, hspends⟩ := haction s trivial
  have hstore := Nat.le_trans hspends.1 hbound
  show Within _ _ _ ((sayAll _ _).bind _)
  rw [bind_sayAll]
  refine within_sayAll ?_
  cases houtcome : (action s).outcome with
  | done value => exact hnext value houtcome
  | failed error => exact .done nofun hstore
  | unfinished => exact absurd houtcome hends

theorem asks_silently {action : Action σ α} (haction : action.Passes (fun _ => True) g.Spends) :
    (silently action).Asks g.store.horizon 0 := by
  intro s lines
  refine within_perform_bind haction (Nat.le_add_left _ _) fun value _ => ?_
  exact .done nofun (Nat.le_trans (haction s trivial).way.1 (Nat.le_add_left _ _))

theorem within_promptYes_bind {message : String} {standard : Bool} {next : Bool → Command σ β}
    {horizon : σ → Nat} (bound : Nat) {s : σ} {lines : List String}
    (h : ∀ yes lines, (next yes s).Within horizon bound lines) :
    ((promptYes message standard >>= next) s).Within horizon (bound + 1) lines :=
  .ask fun _ => h _ _

theorem within_pageOn (title : String) {call : Option Item → Action σ Unit}
    (hcall : ∀ start, (call start).Passes (fun _ => True) g.Spends) {rounds : Nat} (number : Nat)
    (start : Option Item) {s : σ} (hrounds : g.store.horizon s < rounds) (lines : List String) :
    (pageOn title call rounds number start s).Within g.store.horizon (g.store.horizon s) lines := by
  induction rounds generalizing number start s lines with
  | zero => exact absurd hrounds (Nat.not_lt_zero _)
  | succ rounds ih =>
    obtain ⟨-, -, hspends⟩ := hcall start s trivial
    refine within_perform_bind (hcall start) (Nat.le_refl _) fun _ _ => ?_
    cases hcursor : lastCursor (deliveries (call start s).events) with
    | none =>
      simp only [hcursor]
      exact .done nofun hspends.1
    | some cursor =>
      simp only [hcursor]
      obtain ⟨page, hpage, hnext⟩ := Option.bind_eq_some_iff.mp hcursor
      have hless := hspends.2 ⟨page, List.mem_of_getLast? hpage, by simp [hnext]⟩
      refine (within_promptYes_bind (g.store.horizon (call start s).store)
        fun yes lines => ?_).mono hless
      cases yes with
      | true => exact ih _ _ (by omega) lines
      | false => exact .done nofun (Nat.le_refl _)

theorem within_segmentsOn {call : Option (List (Option Item)) → Action σ Unit}
    (hcall : ∀ start, (call start).Passes (fun _ => True) g.Spends) (segments : Nat) {rounds : Nat}
    (start : Option (List (Option Item))) {s : σ} (hrounds : g.store.horizon s < rounds)
    (lines : List String) :
    (segmentsOn call segments rounds start s).Within g.store.horizon (g.store.horizon s) lines := by
  induction rounds generalizing start s lines with
  | zero => exact absurd hrounds (Nat.not_lt_zero _)
  | succ rounds ih =>
    obtain ⟨-, -, hspends⟩ := hcall start s trivial
    refine within_perform_bind (hcall start) (Nat.le_refl _) fun _ _ => ?_
    simp only
    split
    · exact .tell (.done nofun hspends.1)
    next hpending =>
      -- A segment that goes on has handed out a page that is not its last.
      obtain ⟨cursor, hcursor⟩ := List.exists_mem_of_length_pos (Nat.pos_of_ne_zero hpending)
      obtain ⟨hsegment, hsome⟩ := List.mem_filter.mp hcursor
      obtain ⟨segment, -, rfl⟩ := List.mem_map.mp hsegment
      obtain ⟨key, hkey⟩ := Option.isSome_iff_exists.mp hsome
      obtain ⟨page, hpage, hnext⟩ := Option.bind_eq_some_iff.mp hkey
      have hhandedOut := (List.mem_filter.mp (List.mem_of_getLast? hpage)).1
      have hless := hspends.2 ⟨page, hhandedOut, by simp [hnext]⟩
      refine (within_promptYes_bind (g.store.horizon (call start s).store)
        fun yes lines => ?_).mono hless
      cases yes with
      | true => exact ih _ (by omega) lines
      | false => exact .done nofun (Nat.le_refl _)

theorem asks_rounds {command : Nat → Command σ Unit}
    (h : ∀ rounds s, g.store.horizon s < rounds → ∀ lines,
      (command rounds s).Within g.store.horizon (g.store.horizon s) lines) :
    (g.rounds command).Asks g.store.horizon 0 := by
  intro s lines
  rw [Nat.zero_add]
  exact h _ s (Nat.lt_succ_self _) lines

theorem asks_ofReadItem (text : String) :
    (Command.ofExcept id (readItem text) : Command σ Item).Asks g.store.horizon 0 := by
  refine Asks.ofExcept id fun error herror hunfinished => ?_
  obtain rfl : error = .unfinished := hunfinished
  unfold readItem at herror
  split at herror
  next fields _ =>
    cases hitem : Item.ofJson (.object fields) <;> simp [hitem, Except.mapError] at herror
  · cases herror

theorem asks_ofReadItems (text : String) :
    (Command.ofExcept id (readItems text) : Command σ (List Item)).Asks g.store.horizon 0 := by
  refine Asks.ofExcept id fun error herror hunfinished => ?_
  obtain rfl : error = .unfinished := hunfinished
  unfold readItems at herror
  split at herror
  next elements _ =>
    cases hitems : elements.mapM Item.ofJson <;> simp [hitems, Except.mapError] at herror
  · cases herror

theorem asks_key (g : Gateway σ) :
    (Command.promptKey g.table.primaryKey.names : Command σ Item).Asks g.store.horizon 2 := by
  refine (Asks.promptKey _).mono ?_
  rw [KeySchema.names, List.length_cons]
  cases g.table.primaryKey.sortKey <;> simp

namespace Dwindles

variable (h : g.Dwindles)

include h

theorem asks_put : g.putCommand.Asks g.store.horizon 2 := by
  refine (Asks.prompt _ _).bind (m := 1) fun text => ?_
  refine (asks_ofReadItem text).bind (m := 1) fun item => ?_
  refine (Asks.promptOptional _ _).bind (m := 0) fun condition => ?_
  refine (asks_silently (h.passes.put g.passage_spends item condition)).bind (m := 0) fun _ => ?_
  exact .say _

theorem asks_get : g.getCommand.Asks g.store.horizon 2 := by
  refine g.asks_key.bind (m := 0) fun key => ?_
  refine (asks_silently (h.passes.get g.passage_spends key)).bind (m := 0) fun found => ?_
  cases found with
  | none => exact .say _
  | some item => exact .say _

theorem asks_delete : g.deleteCommand.Asks g.store.horizon 2 := by
  refine g.asks_key.bind (m := 0) fun key => ?_
  exact (asks_silently (h.passes.batchWrite g.passage_spends _)).bind (m := 0) fun _ => .say _

theorem asks_batchPut : g.batchPutCommand.Asks g.store.horizon 1 := by
  refine (Asks.prompt _ _).bind (m := 0) fun text => ?_
  refine (asks_ofReadItems text).bind (m := 0) fun items => ?_
  exact (asks_silently (h.passes.batchWrite g.passage_spends _)).bind (m := 0) fun _ => .say _

theorem asks_query : g.queryCommand.Asks g.store.horizon 5 := by
  refine (Asks.prompt _ _).bind (m := 4) fun key => ?_
  refine (Asks.promptOptional _ _).bind (m := 3) fun index => ?_
  refine (Asks.promptOptional _ _).bind (m := 2) fun filter => ?_
  refine (Asks.promptYes _ _).bind (m := 1) fun forward => ?_
  refine Asks.promptLimit.bind (m := 0) fun limit => ?_
  exact asks_rounds fun rounds s hrounds lines =>
    within_pageOn _ (fun start => h.passes.query g.passage_spends _ _) _ _ hrounds lines

theorem asks_scan : g.scanCommand.Asks g.store.horizon 3 := by
  refine Asks.promptScanOptions.bind (m := 0) fun options => ?_
  exact asks_rounds fun rounds s hrounds lines =>
    within_pageOn _ (fun start => h.passes.parallelScan g.passage_spends 1 options _) _ _ hrounds
      lines

theorem asks_parallelScan : g.parallelScanCommand.Asks g.store.horizon 4 := by
  refine (Asks.prompt _ _).bind (m := 3) fun text => ?_
  refine (Asks.count _ text).bind (m := 3) fun segments => ?_
  refine Asks.promptScanOptions.bind (m := 0) fun options => ?_
  exact asks_rounds fun rounds s hrounds lines =>
    within_segmentsOn (fun start => h.passes.parallelScan g.passage_spends segments options start)
      segments _ hrounds lines

omit h in
theorem asks_compile : (compileCommand : Command σ Unit).Asks g.store.horizon 2 := by
  refine (Asks.prompt _ _).bind (m := 1) fun text => ?_
  refine (Asks.promptYes _ _).bind (m := 0) fun isKey => ?_
  have hprint : ∀ compiled, (Command.printLines (Report.describeCompiled compiled) :
      Command σ Unit).Asks g.store.horizon 0 := fun _ => .printLines _
  cases isKey with
  | true =>
    exact (Asks.ofExcept .expression fun _ _ => nofun).bind (m := 0) hprint
  | false =>
    refine (Asks.ofExcept .expression fun _ _ => nofun).bind (m := 0)
      fun compiled => ?_
    cases compiled with
    | some compiled => exact (Asks.done _).bind (m := 0) hprint
    | none => exact (Asks.fail .emptyExpression nofun).bind (m := 0) hprint

theorem asks_command {name : String} {command : Command σ Unit}
    (hcommand : g.command? name = some command) : command.Asks g.store.horizon 5 := by
  unfold command? at hcommand
  split at hcommand <;> cases hcommand
  · exact (Asks.printLines _).mono (by decide)
  · exact h.asks_put.mono (by decide)
  · exact h.asks_get.mono (by decide)
  · exact h.asks_delete.mono (by decide)
  · exact h.asks_batchPut.mono (by decide)
  · exact h.asks_query
  · exact h.asks_scan.mono (by decide)
  · exact h.asks_parallelScan.mono (by decide)
  · exact asks_compile.mono (by decide)

end Dwindles

end Gateway

end KeyedTable
