import KeyedTable.Gateway.Session
import KeyedTable.Proofs.Gateway.Attempts

namespace KeyedTable

variable {σ α β : Type}

def syntaxFault (text : String) : Option Error :=
  match Condition.parse text with
  | .ok _ => none
  | .error fault => some (.expression fault)

def filterFault : Option String → Option Error
  | none => none
  | some text => if isBlankText text then none else syntaxFault text

def keyFault (text : String) : Option Error :=
  if isBlankText text then some (.expression (.missingExpression "key")) else syntaxFault text

def limitFault (limit : Option Nat) : Option Error :=
  if limit = some 0 then some (.invalidArgument .zeroLimit) else none

def segmentsFault (segments : Nat) : Option Error :=
  if segments = 0 then some (.invalidArgument .noSegments) else none

def cursorsFault (segments : Nat) : Option (List (Option Item)) → Option Error
  | none => none
  | some cursors =>
    if cursors.length = segments then none
    else some (.invalidArgument (.cursorCount cursors.length segments))

namespace Operation

def checks : Operation → List (Option Error)
  | .get _ | .batchWrite _ | .batchGet _ => []
  | .put _ condition => [filterFault condition]
  | .query key options => [limitFault options.limit, keyFault key, filterFault options.filter]
  | .scan options _ => [limitFault options.limit, filterFault options.filter]
  | .parallelScan segments options start =>
    [segmentsFault segments, cursorsFault segments start, limitFault options.limit,
      filterFault options.filter]

def fault (operation : Operation) : Option Error := operation.checks.findSome? id

end Operation

theorem findSome?_id_cons (check : Option α) (checks : List (Option α)) :
    (check :: checks).findSome? id = check.or (checks.findSome? id) := by
  cases check <;> rfl

def Store.Refuses (store : Store σ) (events : List Event) (error : Error) : Prop :=
  ∃ request s, (store.answer request s).1 = .error error ∧ .asked request (some error) ∈ events

/-- A fault is all that the action comes to, whatever the store. Without a fault it fails only with
what the store refused it, so never for an expression that the store has nothing against. -/
structure Action.Checked (store : Store σ) (fault : Option Error) (action : Action σ α) : Prop where
  invalid : ∀ error, fault = some error → ∀ s, action s = ⟨.failed error, s, []⟩
  valid : fault = none → ∀ s error, (action s).outcome = .failed error →
    store.Refuses (action s).events error
  expressions : fault = none →
    (∀ request s flaw, (store.answer request s).1 ≠ .error (.expression flaw)) →
    ∀ s flaw, (action s).outcome ≠ .failed (.expression flaw)

def Action.Blames (store : Store σ) (action : Action σ α) : Prop :=
  ∀ s error, (action s).outcome = .failed error → store.Refuses (action s).events error

theorem Store.Refuses.mono {store : Store σ} {events others : List Event} {error : Error}
    (h : store.Refuses events error) (hevents : events ⊆ others) : store.Refuses others error := by
  obtain ⟨request, s, hanswer, hmem⟩ := h
  exact ⟨request, s, hanswer, hevents hmem⟩

namespace Action.Blames

variable {store : Store σ}

theorem pure (value : α) : Blames store (Pure.pure value : Action σ α) := nofun

theorem unfinished : Blames store (Action.unfinished : Action σ α) := nofun

theorem note (event : Event) : Blames store (Action.note event : Action σ Unit) := nofun

theorem deliver (visit : Delivery → σ → σ) (page : Delivery) :
    (Action.deliver visit page).Blames store := nofun

theorem bind {first : Action σ α} {next : α → Action σ β} (hfirst : first.Blames store)
    (hnext : ∀ value, (next value).Blames store) : (first >>= next).Blames store := by
  intro s error h
  simp only [bind_apply, Action.bind] at h ⊢
  cases hran : (first s).outcome with
  | done value =>
    simp only [hran] at h ⊢
    exact (hnext value _ error h).mono (List.subset_append_right ..)
  | failed own =>
    simp only [hran, Outcome.failed.injEq] at h ⊢
    exact hfirst s error (h ▸ hran)
  | unfinished => simp [hran] at h

theorem all {actions : List (Action σ α)} (h : ∀ action ∈ actions, action.Blames store) :
    (Action.all actions).Blames store := by
  induction actions with
  | nil => exact pure []
  | cons action actions ih =>
    obtain ⟨haction, hactions⟩ := List.forall_mem_cons.mp h
    intro s error hfailed
    simp only [Action.all] at hfailed ⊢
    cases hran : (action s).outcome with
    | failed own =>
      simp only [hran, Outcome.failed.injEq] at hfailed
      exact (haction s error (hfailed ▸ hran)).mono (List.subset_append_left ..)
    | unfinished => simp [hran] at hfailed
    | done value =>
      cases hrest : (Action.all actions (action s).store).outcome with
      | failed own =>
        simp only [hran, hrest] at hfailed
        exact (ih hactions _ error (hrest.trans hfailed)).mono (List.subset_append_right ..)
      | done values => simp [hran, hrest] at hfailed
      | unfinished => simp [hran, hrest] at hfailed

end Action.Blames

theorem Tried.refuses {store : Store σ} {policy : RetryPolicy} {request : Request} {used : Nat}
    {s : σ} {ran : Ran σ request.Reply} (h : Tried store policy request used s ran)
    {error : Error} (hfailed : ran.outcome = .failed error) :
    store.Refuses ran.events error := by
  induction h with
  | answered => cases hfailed
  | refused hanswer =>
    cases hfailed
    exact ⟨request, _, congrArg Prod.fst hanswer, List.mem_singleton_self _⟩
  | again _ _ _ ih =>
    refine (ih hfailed).mono fun event hmem => ?_
    simp [hmem]

theorem Action.Checked.of_blames {store : Store σ} {result : Except Error α}
    {next : α → Action σ β} (h : ∀ value, (next value).Blames store) :
    (Action.ofExcept result >>= next).Checked store (refusal? result) := by
  cases result with
  | ok value =>
    refine ⟨nofun, fun _ => h value, fun _ hstore s flaw hfailed => ?_⟩
    obtain ⟨request, t, hanswer, -⟩ := h value s _ hfailed
    exact hstore request t flaw hanswer
  | error error => exact ⟨fun _ hfault _ => by cases hfault; rfl, nofun, nofun⟩

theorem refusal?_bind {result : Except Error α} {next : α → Except Error β} {later : Option Error}
    (h : ∀ value, refusal? (next value) = later) :
    refusal? (result >>= next) = (refusal? result).or later := by
  cases result with
  | ok value => exact h value
  | error error => rfl

theorem refusal?_checkLimit (limit : Option Nat) :
    refusal? (checkLimit limit) = limitFault limit := by
  unfold checkLimit limitFault
  split <;> rfl

theorem refusal?_checkCursors (segments : Nat) (start : Option (List (Option Item))) :
    refusal? (checkCursors segments start) =
      (segmentsFault segments).or (cursorsFault segments start) := by
  unfold checkCursors segmentsFault
  split
  · rfl
  · cases start with
    | none => rfl
    | some cursors =>
      simp only [cursorsFault]
      split <;> rfl

theorem refusal?_compiled (text : String) (compile : Condition → α) :
    refusal? (((Condition.parse text).map compile).mapError Error.expression) =
      syntaxFault text := by
  unfold syntaxFault
  cases Condition.parse text <;> rfl

theorem refusal?_filterExpression (text : Option String) (previous : Option Compiled) :
    refusal? (filterExpression text previous) = filterFault text := by
  cases text with
  | none => rfl
  | some text =>
    simp only [filterExpression, compileFilter, filterFault]
    split
    · rfl
    · exact refusal?_compiled text _

theorem refusal?_compileKey (text : String) (previous : Option Compiled) :
    refusal? ((compileKey text previous).mapError Error.expression) = keyFault text := by
  simp only [compileKey, keyFault]
  split
  · rfl
  · exact refusal?_compiled text _

namespace Gateway

variable (g : Gateway σ)

theorem refusal?_putRequest (item : Item) (condition : Option String) :
    refusal? (g.putRequest item condition) = (Operation.put item condition).fault := by
  simp only [Operation.fault, Operation.checks, findSome?_id_cons,
    ← refusal?_filterExpression condition none]
  exact refusal?_bind fun _ => rfl

theorem refusal?_queryRead (key : String) (options : QueryOptions) :
    refusal? (g.queryRead key options) = (Operation.query key options).fault := by
  simp only [Operation.fault, Operation.checks, findSome?_id_cons, ← refusal?_checkLimit,
    ← refusal?_compileKey key none]
  -- The filter is compiled after the key condition, whose result it goes on with.
  refine refusal?_bind fun _ => refusal?_bind fun condition => ?_
  rw [← refusal?_filterExpression options.filter (some condition)]
  exact refusal?_bind fun _ => rfl

theorem refusal?_scanReads (segments : Nat) (options : ScanOptions)
    (start : Option (List (Option Item))) :
    refusal? (g.scanReads segments options start) =
      (Operation.parallelScan segments options start).fault := by
  simp only [Operation.fault, Operation.checks, findSome?_id_cons, ← Option.or_assoc,
    ← refusal?_checkCursors, ← refusal?_checkLimit, ← refusal?_filterExpression options.filter none]
  rw [Option.or_assoc, Option.or_assoc]
  exact refusal?_bind fun _ => refusal?_bind fun _ => refusal?_bind fun _ => rfl

theorem blames_submit (request : Request) : (g.submit request).Blames g.store :=
  fun s _ hfailed => (tried_submit g request s).refuses hfailed

theorem blames_pages (rounds : Nat) (prev : Option (Option Item)) (read : Read) :
    (g.pages rounds prev read).Blames g.store := by
  induction rounds generalizing prev read with
  | zero => exact .unfinished
  | succ rounds ih =>
    refine (g.blames_submit _).bind fun page => (Action.Blames.deliver _ _).bind fun _ => ?_
    split
    · exact ih _ _
    · exact .pure ()

theorem blames_readFrom (prev : Option (Option Item)) (read : Read) :
    (g.readFrom prev read).Blames g.store :=
  fun s => g.blames_pages _ prev read s

theorem checked_put (item : Item) (condition : Option String) :
    (g.put item condition).Checked g.store (Operation.put item condition).fault := by
  rw [← g.refusal?_putRequest]
  exact .of_blames fun _ => (g.blames_submit _).bind fun _ => .note _

theorem checked_query (key : String) (options : QueryOptions) :
    (g.query key options).Checked g.store (Operation.query key options).fault := by
  rw [← g.refusal?_queryRead]
  exact .of_blames fun read => g.blames_readFrom _ read

theorem checked_parallelScan (segments : Nat) (options : ScanOptions)
    (start : Option (List (Option Item))) :
    (g.parallelScan segments options start).Checked g.store
      (Operation.parallelScan segments options start).fault := by
  rw [← g.refusal?_scanReads]
  refine .of_blames fun reads => (Action.Blames.all fun action haction => ?_).bind
    fun _ => .pure ()
  obtain ⟨read, -, rfl⟩ := List.mem_map.mp haction
  exact g.blames_readFrom _ read

theorem checked_scan (options : ScanOptions) (start : Option Item) :
    (g.scan options start).Checked g.store (Operation.scan options start).fault := by
  have hfault : (Operation.parallelScan 1 options (start.map fun key => [some key])).fault =
      (Operation.scan options start).fault := by cases start <;> rfl
  rw [← hfault]
  exact g.checked_parallelScan 1 options _

end Gateway

/-- Whatever is wrong with the arguments is found in the order of the checks and before the first
request, and nothing is found out later: a call with arguments in order fails only with what the
store refuses it with. -/
theorem checked_before_sent (g : Gateway σ) :
    (∀ item condition,
      (g.put item condition).Checked g.store (Operation.put item condition).fault) ∧
    (∀ key options, (g.query key options).Checked g.store (Operation.query key options).fault) ∧
    (∀ options start, (g.scan options start).Checked g.store (Operation.scan options start).fault) ∧
    (∀ segments options start, (g.parallelScan segments options start).Checked g.store
      (Operation.parallelScan segments options start).fault) :=
  ⟨g.checked_put, g.checked_query, g.checked_scan, g.checked_parallelScan⟩

theorem checked_before_sent_down :
    let store : Store Nat := ⟨fun _ n => (.error (.request "down"), n + 1), fun n => n⟩
    let g : Gateway Nat := ⟨store, ⟨"orders", ⟨"user", none⟩, .empty⟩, .standard, fun _ n => n⟩
    g.query " " ⟨none, some "(", true, none, some 1⟩ 0 =
        ⟨.failed (.expression (.missingExpression "key")), 0, []⟩ ∧
      g.parallelScan 2 ⟨none, some "(", some 0⟩ (some [none]) 0 =
        ⟨.failed (.invalidArgument (.cursorCount 1 2)), 0, []⟩ ∧
      ∀ n flaw, (g.put .empty (some " ") n).outcome ≠ .failed (.expression flaw) := by
  intro store g
  obtain ⟨hput, hquery, -, hscan⟩ := checked_before_sent g
  refine ⟨(hquery _ _).invalid _ (by rfl) 0, (hscan _ _ _).invalid _ (by rfl) 0, ?_⟩
  exact (hput .empty (some " ")).expressions (by decide) fun _ _ _ h => by cases h

end KeyedTable
