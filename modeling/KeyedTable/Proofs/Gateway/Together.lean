import KeyedTable.Gateway.Together
import KeyedTable.Proofs.Gateway.InTurn
import KeyedTable.Proofs.Memory.Throttled

namespace KeyedTable

variable {σ α β : Type}

namespace Gateway

variable (g : Gateway σ)

theorem carryOut_bind (task : Task α) (next : α → Task β) (s : σ) :
    g.carryOut (task >>= next) s =
      (g.carryOut task >>= fun value => g.carryOut (next value)) s := by
  show g.carryOut (task.bind next) s = _
  induction task generalizing s with
  | ended outcome => cases outcome <;> rfl
  | ask request answered ih =>
    exact (congrArg (Ran.after _) (ih _ _)).trans (Action.bind_after _ (by rfl)).symm
  | emit event rest ih =>
    exact (congrArg (Ran.after _) (ih _)).trans (Action.bind_after _ (by rfl)).symm
  | pause rest ih => exact ih s

@[simp] theorem carryOut_pauseIf (pauses : Bool) (task : Task α) :
    g.carryOut (.pauseIf pauses task) = g.carryOut task := by
  cases pauses <;> rfl

theorem carryOut_retrying (policy : RetryPolicy) (pauses : Pauses) (request : Request)
    (left used : Nat) :
    g.carryOut (policy.asking pauses request left used) =
      policy.attempts (Action.ask g.store request) left used := by
  induction left generalizing used with
  | zero =>
    funext s
    simp only [RetryPolicy.asking, Task.asking, carryOut_pauseIf, carryOut, RetryPolicy.attempts,
      Action.ask_apply, Ran.after]
  | succ left ih =>
    funext s
    simp only [RetryPolicy.asking, Task.asking, carryOut_pauseIf, carryOut, RetryPolicy.attempts,
      Action.ask_apply]
    cases hresult : (g.store.answer request s).1 with
    | ok reply => rfl
    | error error =>
      cases error with
      | throttled detail => simp only [carryOut, carryOut_pauseIf, ih, receive]; rfl
      | _ => rfl

theorem carryOut_asking (pauses : Pauses) (request : Request) :
    g.carryOut (g.asking pauses request) = g.submit request :=
  g.carryOut_retrying g.retry pauses request _ 0

theorem carryOut_writing (pauses : Pauses) (rounds : Nat) (entries : List WriteEntry) :
    g.carryOut (g.writing pauses rounds entries) = g.writeRounds rounds entries := by
  induction rounds generalizing entries with
  | zero => cases entries <;> rfl
  | succ rounds ih =>
    cases entries with
    | nil => rfl
    | cons entry entries =>
      funext s
      rw [writing, carryOut_bind, carryOut_asking]
      simp only [ih]
      rfl

theorem carryOut_getting (pauses : Pauses) (rounds : Nat) (keys : List Item) :
    g.carryOut (g.getting pauses rounds keys) = g.getRounds rounds keys := by
  induction rounds generalizing keys with
  | zero => cases keys <;> rfl
  | succ rounds ih =>
    cases keys with
    | nil => rfl
    | cons key keys =>
      have hrest (found : Found) :
          g.carryOut (g.getting pauses rounds found.unprocessed >>= fun items =>
            return found.items ++ items) =
          (g.getRounds rounds found.unprocessed >>= fun items => return found.items ++ items) := by
        funext s
        rw [carryOut_bind, ih]
        rfl
      funext s
      rw [getting, carryOut_bind, carryOut_asking]
      simp only [hrest]
      rfl

theorem carryOut_reading (pauses : Pauses) (rounds : Nat) (prev : Option (Option Item))
    (read : Read) :
    g.carryOut (g.reading pauses rounds prev read) = g.pages rounds prev read := by
  induction rounds generalizing prev read with
  | zero => rfl
  | succ rounds ih =>
    funext s
    rw [reading, carryOut_bind, carryOut_asking, pages]
    refine congrFun (congrArg (g.submit (.read read) >>= ·) ?_) s
    funext page t
    simp only [carryOut, receive, Action.bind_apply, Action.bind, Action.deliver,
      List.singleton_append]
    cases page.lastKey with
    | none => rfl
    | some key =>
      cases charge read.limit page.items.length with
      | none => rfl
      | some limit =>
        simp only [ih]
        rfl

def complete (start : σ → Task α) : Action σ α := fun s => g.carryOut (start s) s

theorem carryOut_eq_poll (task : Task α) (s : σ) :
    g.carryOut task s = (g.poll task >>= g.carryOut) s := by
  induction task generalizing s with
  | ended outcome => rfl
  | ask request answered ih =>
    exact (congrArg (Ran.after _) (ih _ _)).trans (Action.bind_after _ (by rfl)).symm
  | emit event rest ih =>
    exact (congrArg (Ran.after _) (ih _)).trans (Action.bind_after _ (by rfl)).symm
  | pause rest ih => rfl

theorem carryOut_all_ended (outcomes : List (Outcome α)) (s : σ) :
    Action.all ((outcomes.map Task.ended).map g.carryOut) s = ⟨.all outcomes, s, []⟩ := by
  induction outcomes with
  | nil => rfl
  | cons outcome outcomes ih =>
    have hfirst : g.carryOut (.ended outcome) s = ⟨outcome, s, []⟩ := rfl
    exact Action.all_cons_of_all hfirst ih

theorem schedule_ended (schedule : List Nat) (outcomes : List (Outcome α)) (s : σ) :
    (schedule.foldlM g.takeUp (outcomes.map Task.ended)) s =
      ⟨.done (outcomes.map Task.ended), s, []⟩ := by
  induction schedule with
  | nil => rfl
  | cons number schedule ih =>
    have hturn : g.takeUp (outcomes.map Task.ended) number s =
        ⟨.done (outcomes.map Task.ended), s, []⟩ := by
      rw [takeUp, List.getElem?_map]
      cases houtcome : outcomes[number]? with
      | none => rfl
      | some outcome =>
        obtain ⟨hnumber, rfl⟩ := List.getElem?_eq_some_iff.mp houtcome
        have hset : (outcomes.map Task.ended).set number (.ended outcomes[number]) =
            outcomes.map Task.ended := by
          rw [← List.map_set, List.set_getElem_self]
        exact congrArg (fun tasks => (⟨.done tasks, s, []⟩ : Ran σ (List (Task α)))) hset
    rw [List.foldlM_cons]
    exact Action.bind_of_eq hturn ih

theorem all_carryOut_eq_poll (task : Task α) :
    Action.all [g.carryOut task] = (g.poll task >>= fun rest => Action.all [g.carryOut rest]) := by
  simp only [Action.all_singleton]
  rw [show g.carryOut task = (g.poll task >>= g.carryOut) from funext (g.carryOut_eq_poll task),
    bind_assoc]

theorem schedule_alone (schedule : List Nat) (task : Task α) :
    (schedule.foldlM g.takeUp [task] >>= fun left => Action.all (left.map g.carryOut)) =
      Action.all [g.carryOut task] := by
  induction schedule generalizing task with
  | nil => rw [List.foldlM_nil, pure_bind]; rfl
  | cons number schedule ih =>
    rw [List.foldlM_cons]
    cases number with
    | zero =>
      have hturn : g.takeUp [task] 0 = (g.poll task >>= fun rest => return [rest]) := rfl
      simp only [hturn, bind_assoc, pure_bind, ih]
      exact (g.all_carryOut_eq_poll task).symm
    | succ number =>
      have hturn : g.takeUp [task] (number + 1) = pure [task] := rfl
      rw [hturn, pure_bind, ih]

theorem together_alone (schedule : List Nat) {starts : List (σ → Task α)}
    (h : starts.length ≤ 1) :
    g.together schedule starts =
      Action.all (starts.map g.complete) := by
  cases starts with
  | nil =>
    have hschedule : schedule.foldlM g.takeUp ([] : List (Task α)) = pure [] :=
      funext (g.schedule_ended schedule [])
    show ((pure [] : Action σ (List (Task α))) >>= fun begun =>
      schedule.foldlM g.takeUp begun >>= fun left => Action.all (left.map g.carryOut)) = pure []
    rw [pure_bind, hschedule, pure_bind]
    rfl
  | cons start starts =>
    obtain rfl : starts = [] := List.eq_nil_of_length_eq_zero (by simpa using h)
    funext s
    calc g.together schedule [start] s
      _ = (g.poll (start s) >>= fun rest => schedule.foldlM g.takeUp [rest] >>= fun left =>
            Action.all (left.map g.carryOut)) s := by
        simp only [together, List.map_cons, List.map_nil, Action.all_singleton, bind_assoc,
          pure_bind]
        rfl
      _ = Action.all [g.carryOut (start s)] s := by
        simp only [schedule_alone, ← all_carryOut_eq_poll]
      _ = Action.all ([start].map g.complete) s := by
        simp only [List.map_cons, List.map_nil, Action.all_singleton]
        rfl

end Gateway

/-! A task may pause after waits only. Where nothing waits, it comes to its end at once. -/

namespace Task

def PausesAfterWaits (waits : Bool) : Task α → Prop
  | .ended _ => True
  | .ask _ answered => ∀ result, (answered result).PausesAfterWaits waits
  | .emit event rest =>
    (waits = true ∧ ∃ milliseconds, event = .waited milliseconds) ∨ rest.PausesAfterWaits waits
  | .pause _ => False

variable {waits : Bool}

theorem PausesAfterWaits.bind {task : Task α} {next : α → Task β}
    (h : task.PausesAfterWaits waits) (hnext : ∀ value, (next value).PausesAfterWaits waits) :
    (task >>= next).PausesAfterWaits waits := by
  show (task.bind next).PausesAfterWaits waits
  induction task with
  | ended outcome =>
    cases outcome with
    | done value => exact hnext value
    | failed | unfinished => exact trivial
  | ask request answered ih => exact fun result => ih result (h result)
  | emit event rest ih => exact h.imp id ih
  | pause rest => exact h

theorem pausesAfterWaits_retrying (policy : RetryPolicy) (request : Request) (left used : Nat) :
    (policy.asking ⟨false, waits⟩ request left used).PausesAfterWaits waits := by
  induction left generalizing used with
  | zero => exact fun _ => trivial
  | succ left ih =>
    intro result
    cases result with
    | ok reply => exact trivial
    | error error =>
      cases error with
      | throttled detail =>
        cases waits with
        | false => exact .inr (.inr (ih (used + 1)))
        | true => exact .inr (.inl ⟨rfl, _, rfl⟩)
      | _ => exact trivial

end Task

namespace Gateway

variable (g : Gateway σ) {waits : Bool}

theorem pausesAfterWaits_writing (rounds : Nat) (entries : List WriteEntry) :
    (g.writing ⟨false, waits⟩ rounds entries).PausesAfterWaits waits := by
  induction rounds generalizing entries with
  | zero => cases entries <;> exact trivial
  | succ rounds ih =>
    cases entries with
    | nil => exact trivial
    | cons entry entries => exact (Task.pausesAfterWaits_retrying ..).bind ih

theorem pausesAfterWaits_getting (rounds : Nat) (keys : List Item) :
    (g.getting ⟨false, waits⟩ rounds keys).PausesAfterWaits waits := by
  induction rounds generalizing keys with
  | zero => cases keys <;> exact trivial
  | succ rounds ih =>
    cases keys with
    | nil => exact trivial
    | cons key keys =>
      exact (Task.pausesAfterWaits_retrying ..).bind fun found =>
        (ih found.unprocessed).bind fun _ => trivial

theorem pausesAfterWaits_reading (rounds : Nat) (prev : Option (Option Item)) (read : Read) :
    (g.reading ⟨false, waits⟩ rounds prev read).PausesAfterWaits waits := by
  induction rounds generalizing prev read with
  | zero => exact trivial
  | succ rounds ih =>
    refine (Task.pausesAfterWaits_retrying ..).bind fun page => .inr ?_
    split
    · exact ih _ _
    · exact trivial

variable {g}

theorem poll_of_no_wait {task : Task α} (h : task.PausesAfterWaits waits) {s : σ}
    (hcalm : waits = true → ∀ milliseconds, .waited milliseconds ∉ (g.carryOut task s).events) :
    g.poll task s =
      ⟨.done (.ended (g.carryOut task s).outcome), (g.carryOut task s).store,
        (g.carryOut task s).events⟩ := by
  induction task generalizing s with
  | ended outcome => rfl
  | ask request answered ih =>
    exact congrArg (Ran.after _) (ih _ (h _) fun hwaits milliseconds hmem =>
      hcalm hwaits milliseconds (List.mem_cons_of_mem _ hmem))
  | emit event rest ih =>
    obtain ⟨hwaits, milliseconds, rfl⟩ | hrest := h
    · exact absurd List.mem_cons_self (hcalm hwaits milliseconds)
    · exact congrArg (Ran.after _) (ih hrest fun hwaits milliseconds hmem =>
        hcalm hwaits milliseconds (List.mem_cons_of_mem _ hmem))
  | pause rest => exact h.elim

theorem begun_of_no_wait {starts : List (σ → Task α)} {s : σ}
    (h : ∀ start ∈ starts, ∀ t, (start t).PausesAfterWaits waits)
    (hcalm : waits = true → ∀ milliseconds, .waited milliseconds ∉
      (Action.all (starts.map g.complete) s).events) :
    let ran := Action.all (starts.map g.complete) s
    ∃ outcomes, ran.outcome = .all outcomes ∧
      Action.all (starts.map g.begin) s =
        ⟨.done (outcomes.map .ended), ran.store, ran.events⟩ := by
  induction starts generalizing s with
  | nil => exact ⟨[], rfl, rfl⟩
  | cons start starts ih =>
    obtain ⟨hstart, hstarts⟩ := List.forall_mem_cons.mp h
    have hpoll := poll_of_no_wait (hstart s) (s := s) fun hwaits milliseconds hmem =>
      hcalm hwaits milliseconds (List.mem_append_left _ hmem)
    obtain ⟨outcomes, houtcome, hrest⟩ := ih (s := (g.carryOut (start s) s).store) hstarts
      fun hwaits milliseconds hmem => hcalm hwaits milliseconds (List.mem_append_right _ hmem)
    refine ⟨(g.carryOut (start s) s).outcome :: outcomes, ?_, Action.all_cons_of_eq hpoll hrest⟩
    have hfirst : g.complete start s = ⟨(g.carryOut (start s) s).outcome,
        (g.carryOut (start s) s).store, (g.carryOut (start s) s).events⟩ := rfl
    have hall : Action.all (starts.map g.complete) (g.carryOut (start s) s).store =
        ⟨.all outcomes, _, _⟩ := congrArg (fun outcome => Ran.mk outcome _ _) houtcome
    exact congrArg Ran.outcome (Action.all_cons_of_all hfirst hall)

/-- If nothing waits as long as the tasks are carried out one after the other, that is what becomes
of them. -/
theorem together_of_no_wait (schedule : List Nat) {starts : List (σ → Task α)} {s : σ}
    (h : ∀ start ∈ starts, ∀ t, (start t).PausesAfterWaits waits)
    (hcalm : waits = true → ∀ milliseconds, .waited milliseconds ∉
      (Action.all (starts.map g.complete) s).events) :
    g.together schedule starts s =
      Action.all (starts.map g.complete) s := by
  obtain ⟨outcomes, houtcome, hbegun⟩ := begun_of_no_wait h hcalm
  generalize Action.all (starts.map g.complete) s = ran
    at houtcome hbegun ⊢
  obtain ⟨outcome, t, events⟩ := ran
  obtain rfl := houtcome
  have hran : g.together schedule starts s = ⟨.all outcomes, t, events ++ ([] ++ [])⟩ :=
    Action.bind_of_eq hbegun (Action.bind_of_eq (g.schedule_ended schedule outcomes t)
      (g.carryOut_all_ended outcomes t))
  rwa [List.append_nil, List.append_nil] at hran

theorem map_complete_writeStart (g : Gateway σ) (pauses : Pauses)
    (blocks : List (List WriteEntry)) :
    (blocks.map (g.writeStart pauses)).map g.complete = blocks.map g.writeOne := by
  rw [List.map_map]
  exact List.map_congr_left fun block _ => funext fun s =>
    congrFun (g.carryOut_writing pauses _ block) s

theorem map_complete_getStart (g : Gateway σ) (pauses : Pauses) (blocks : List (List Item)) :
    (blocks.map (g.getStart pauses)).map g.complete = blocks.map g.getOne := by
  rw [List.map_map]
  exact List.map_congr_left fun block _ => funext fun s =>
    congrFun (g.carryOut_getting pauses _ block) s

theorem map_complete_readStart (g : Gateway σ) (pauses : Pauses) (reads : List Read) :
    (reads.map (g.readStart pauses)).map g.complete = reads.map (g.readFrom (some none)) := by
  rw [List.map_map]
  exact List.map_congr_left fun read _ => funext fun s =>
    congrFun (g.carryOut_reading pauses _ _ read) s

section NoWait

variable {s : σ} (schedule : List Nat)

theorem writeTogether_of_no_wait {entries : List WriteEntry}
    (hcalm : waits = true → ∀ milliseconds,
      .waited milliseconds ∉ (g.batchWrite entries s).events) :
    g.writeTogether ⟨false, waits⟩ schedule entries s = g.batchWrite entries s := by
  refine Action.bind_congr ?_ _
  rw [together_of_no_wait, map_complete_writeStart]
  · exact List.forall_mem_map.mpr fun block _ t => g.pausesAfterWaits_writing _ block
  · intro hwaits milliseconds hmem
    rw [map_complete_writeStart] at hmem
    exact hcalm hwaits milliseconds (Action.events_subset_bind _ _ s hmem)

theorem getTogether_of_no_wait {keys : List Item}
    (hcalm : waits = true → ∀ milliseconds, .waited milliseconds ∉ (g.batchGet keys s).events) :
    g.getTogether ⟨false, waits⟩ schedule keys s = g.batchGet keys s := by
  refine Action.bind_congr ?_ _
  rw [together_of_no_wait, map_complete_getStart]
  · exact List.forall_mem_map.mpr fun block _ t => g.pausesAfterWaits_getting _ block
  · intro hwaits milliseconds hmem
    rw [map_complete_getStart] at hmem
    exact hcalm hwaits milliseconds (Action.events_subset_bind _ _ s hmem)

theorem scanTogether_of_no_wait {segments : Nat} {options : ScanOptions}
    {start : Option (List (Option Item))}
    (hcalm : waits = true → ∀ milliseconds,
      .waited milliseconds ∉ (g.parallelScan segments options start s).events) :
    g.scanTogether ⟨false, waits⟩ schedule segments options start s =
      g.parallelScan segments options start s := by
  unfold scanTogether parallelScan at *
  cases hreads : g.scanReads segments options start with
  | error error => rfl
  | ok reads =>
    simp only [hreads, Action.ofExcept_bind] at hcalm ⊢
    refine Action.bind_congr ?_ _
    rw [together_of_no_wait, map_complete_readStart]
    · exact List.forall_mem_map.mpr fun read _ t => g.pausesAfterWaits_reading _ _ read
    · intro hwaits milliseconds hmem
      rw [map_complete_readStart] at hmem
      exact hcalm hwaits milliseconds (Action.events_subset_bind _ _ s hmem)

theorem writeTogether_unpaused (entries : List WriteEntry) (s : σ) :
    g.writeTogether ⟨false, false⟩ schedule entries s = g.batchWrite entries s :=
  writeTogether_of_no_wait schedule nofun

theorem getTogether_unpaused (keys : List Item) (s : σ) :
    g.getTogether ⟨false, false⟩ schedule keys s = g.batchGet keys s :=
  getTogether_of_no_wait schedule nofun

theorem scanTogether_unpaused (segments : Nat) (options : ScanOptions)
    (start : Option (List (Option Item))) (s : σ) :
    g.scanTogether ⟨false, false⟩ schedule segments options start s =
      g.parallelScan segments options start s :=
  scanTogether_of_no_wait schedule nofun

end NoWait

section Alone

variable (g) (pauses : Pauses) (schedule : List Nat)

theorem writeTogether_alone {entries : List WriteEntry} (h : entries.length ≤ writeBatchSize) :
    g.writeTogether pauses schedule entries = g.batchWrite entries := by
  have hlength : (entries.map (WriteEntry.reduce g.table)).length ≤ writeBatchSize := by
    rwa [List.length_map]
  dsimp only [writeTogether, batchWrite]
  rw [together_alone, map_complete_writeStart]
  rw [List.length_map]
  exact length_batches_le_one hlength

theorem getTogether_alone {keys : List Item} (h : keys.length ≤ getBatchSize) :
    g.getTogether pauses schedule keys = g.batchGet keys := by
  have hlength : (keys.map g.table.keyOf).length ≤ getBatchSize := by rwa [List.length_map]
  dsimp only [getTogether, batchGet]
  rw [together_alone, map_complete_getStart]
  rw [List.length_map]
  exact length_batches_le_one hlength

theorem scanTogether_alone {segments : Nat} {options : ScanOptions}
    {start : Option (List (Option Item))} (h : (segmentStarts segments start).length ≤ 1) :
    g.scanTogether pauses schedule segments options start =
      g.parallelScan segments options start := by
  unfold scanTogether parallelScan
  cases hreads : g.scanReads segments options start with
  | error error => rfl
  | ok reads =>
    have hlength : reads.length = (segmentStarts segments start).length := by
      simpa using congrArg List.length (scanReads_starts hreads)
    simp only [Action.ofExcept_bind]
    rw [together_alone, map_complete_readStart]
    simpa [hlength] using h

end Alone

end Gateway

end KeyedTable
