import KeyedTable.Gateway.Session

namespace KeyedTable

variable {σ α β : Type} {I : σ → Prop} {kind : Request → Prop}

def Action.Respects (I : σ → Prop) (kind : Request → Prop) (action : Action σ α) : Prop :=
  ∀ s, I s → I (action s).store ∧
    ∀ request refusal, .asked request refusal ∈ (action s).events → kind request

namespace Action.Respects

theorem of_silent {action : Action σ α} (hstore : ∀ s, (action s).store = s)
    (hevents : ∀ s request refusal, .asked request refusal ∉ (action s).events) :
    action.Respects I kind :=
  fun s hs => ⟨(hstore s).symm ▸ hs, fun _ _ hmem => absurd hmem (hevents s _ _)⟩

theorem pure (value : α) : Respects I kind (Pure.pure value : Action σ α) :=
  of_silent (fun _ => rfl) fun _ _ _ => List.not_mem_nil

theorem unfinished : Respects I kind (Action.unfinished : Action σ α) :=
  of_silent (fun _ => rfl) fun _ _ _ => List.not_mem_nil

theorem log (notice : Notice) : Respects I kind (Action.note (.logged notice) : Action σ Unit) :=
  of_silent (fun _ => rfl) fun _ _ _ => by simp [Action.note]

theorem bind {first : Action σ α} {next : α → Action σ β} (hfirst : first.Respects I kind)
    (hnext : ∀ value, (next value).Respects I kind) : (first >>= next).Respects I kind := by
  intro s hs
  obtain ⟨hstore, hasked⟩ := hfirst s hs
  simp only [bind_apply, Action.bind]
  cases (first s).outcome with
  | done value =>
    obtain ⟨hrest, hothers⟩ := hnext value _ hstore
    refine ⟨hrest, fun request refusal hmem => ?_⟩
    exact (List.mem_append.mp hmem).elim (hasked request refusal) (hothers request refusal)
  | failed error => exact ⟨hstore, hasked⟩
  | unfinished => exact ⟨hstore, hasked⟩

theorem ofExcept_bind {result : Except Error α} {next : α → Action σ β}
    (h : ∀ value, result = .ok value → (next value).Respects I kind) :
    (Action.ofExcept result >>= next).Respects I kind := by
  cases result with
  | ok value => exact h value rfl
  | error error => exact of_silent (fun _ => rfl) fun _ _ _ => List.not_mem_nil

theorem all {actions : List (Action σ α)} (h : ∀ action ∈ actions, action.Respects I kind) :
    (Action.all actions).Respects I kind := by
  induction actions with
  | nil => exact pure []
  | cons action actions ih =>
    obtain ⟨haction, hactions⟩ := List.forall_mem_cons.mp h
    intro s hs
    obtain ⟨hstore, hasked⟩ := haction s hs
    obtain ⟨hrest, hothers⟩ := ih hactions _ hstore
    refine ⟨hrest, fun request refusal hmem => ?_⟩
    exact (List.mem_append.mp hmem).elim (hasked request refusal) (hothers request refusal)

theorem attempts {action : Action σ α} (h : action.Respects I kind) (policy : RetryPolicy)
    (left used : Nat) : (policy.attempts action left used).Respects I kind := by
  induction left generalizing used with
  | zero => exact h
  | succ left ih =>
    intro s hs
    obtain ⟨hstore, hasked⟩ := h s hs
    simp only [RetryPolicy.attempts]
    split
    · obtain ⟨hrest, hothers⟩ := ih (used + 1) _ hstore
      refine ⟨hrest, fun request refusal hmem => ?_⟩
      simp only [List.mem_append, List.mem_cons, reduceCtorEq, false_or] at hmem
      exact hmem.elim (hasked request refusal) (hothers request refusal)
    · exact ⟨hstore, hasked⟩

end Action.Respects

namespace Gateway

variable {g : Gateway σ}

/-- Answers to requests of the kind and receivers of pages keep the property. -/
structure Upholds (g : Gateway σ) (I : σ → Prop) (kind : Request → Prop) : Prop where
  answer : ∀ request, kind request → ∀ s, I s → I (g.store.answer request s).2
  visit : ∀ page s, I s → I (g.visit page s)

namespace Upholds

theorem submit (h : g.Upholds I kind) {request : Request} (hkind : kind request) :
    (g.submit request).Respects I kind := by
  have hask : (Action.ask g.store request).Respects I kind := by
    intro s hs
    have hstore := h.answer request hkind s hs
    unfold Action.ask
    split
    next heq => exact ⟨by simpa [heq] using hstore, fun _ _ hmem => by simp_all⟩
    next heq => exact ⟨by simpa [heq] using hstore, fun _ _ hmem => by simp_all⟩
  exact hask.attempts g.retry _ _

theorem deliver (h : g.Upholds I kind) (page : Delivery) :
    (Action.deliver g.visit page).Respects I kind :=
  fun s hs => ⟨h.visit page s hs, fun _ _ hmem => by simp [Action.deliver] at hmem⟩

theorem pages (h : g.Upholds I kind) {read : Read}
    (hkind : ∀ start limit, kind (.read { read with start, limit })) (rounds : Nat)
    (prev : Option (Option Item)) : (g.pages rounds prev read).Respects I kind := by
  induction rounds generalizing prev read with
  | zero => exact .unfinished
  | succ rounds ih =>
    refine (h.submit (hkind read.start read.limit)).bind fun page =>
      (h.deliver _).bind fun _ => ?_
    split
    next key limit _ _ => exact @ih { read with start := some key, limit } hkind _
    next => exact .pure ()

theorem readFrom (h : g.Upholds I kind) {read : Read}
    (hkind : ∀ start limit, kind (.read { read with start, limit }))
    (prev : Option (Option Item)) : (g.readFrom prev read).Respects I kind :=
  fun s hs => h.pages hkind _ prev s hs

theorem writeRounds (h : g.Upholds I kind)
    (hkind : ∀ table entries, kind (.writeBatch table entries)) (rounds : Nat)
    (entries : List WriteEntry) : (g.writeRounds rounds entries).Respects I kind := by
  induction rounds generalizing entries with
  | zero =>
    cases entries with
    | nil => exact .pure ()
    | cons entry entries => exact .unfinished
  | succ rounds ih =>
    cases entries with
    | nil => exact .pure ()
    | cons entry entries => exact (h.submit (hkind _ _)).bind fun unprocessed => ih unprocessed

theorem getRounds (h : g.Upholds I kind) (hkind : ∀ table keys, kind (.getBatch table keys))
    (rounds : Nat) (keys : List Item) : (g.getRounds rounds keys).Respects I kind := by
  induction rounds generalizing keys with
  | zero =>
    cases keys with
    | nil => exact .pure []
    | cons key keys => exact .unfinished
  | succ rounds ih =>
    cases keys with
    | nil => exact .pure []
    | cons key keys =>
      exact (h.submit (hkind _ _)).bind fun found => (ih found.unprocessed).bind fun _ => .pure _

theorem get (h : g.Upholds I kind) (hkind : ∀ table key, kind (.get table key)) (key : Item) :
    (g.get key).Respects I kind :=
  (h.submit (hkind _ _)).bind fun _ => (Action.Respects.log _).bind fun _ => .pure _

theorem put (h : g.Upholds I kind) {item : Item} {condition : Option String}
    (hkind : ∀ put, g.putRequest item condition = .ok put → kind (.put put)) :
    (g.put item condition).Respects I kind :=
  .ofExcept_bind fun put hput => (h.submit (hkind put hput)).bind fun _ => .log _

theorem batchWrite (h : g.Upholds I kind)
    (hkind : ∀ table entries, kind (.writeBatch table entries)) (entries : List WriteEntry) :
    (g.batchWrite entries).Respects I kind := by
  refine (Action.Respects.all fun action haction => ?_).bind fun _ => .log _
  obtain ⟨block, -, rfl⟩ := List.mem_map.mp haction
  exact fun s hs => h.writeRounds hkind _ block s hs

theorem batchGet (h : g.Upholds I kind) (hkind : ∀ table keys, kind (.getBatch table keys))
    (keys : List Item) : (g.batchGet keys).Respects I kind := by
  refine (Action.Respects.all fun action haction => ?_).bind fun _ =>
    (Action.Respects.log _).bind fun _ => .pure _
  obtain ⟨block, -, rfl⟩ := List.mem_map.mp haction
  exact fun s hs => h.getRounds hkind _ block s hs

theorem query (h : g.Upholds I kind) {key : String} {options : QueryOptions}
    (hkind : ∀ read, g.queryRead key options = .ok read →
      ∀ start limit, kind (.read { read with start, limit })) :
    (g.query key options).Respects I kind :=
  .ofExcept_bind fun read hread => h.readFrom (hkind read hread) _

theorem parallelScan (h : g.Upholds I kind) {segments : Nat} {options : ScanOptions}
    {start : Option (List (Option Item))}
    (hkind : ∀ reads, g.scanReads segments options start = .ok reads → ∀ read ∈ reads,
      ∀ start limit, kind (.read { read with start, limit })) :
    (g.parallelScan segments options start).Respects I kind := by
  refine .ofExcept_bind fun reads hreads => (Action.Respects.all fun action haction => ?_).bind
    fun _ => .pure ()
  obtain ⟨read, hread, rfl⟩ := List.mem_map.mp haction
  exact h.readFrom (hkind reads hreads read hread) _

end Upholds

structure Builds (g : Gateway σ) (kind : Request → Prop) : Prop where
  get : ∀ table key, kind (.get table key)
  put : ∀ {item condition put}, g.putRequest item condition = .ok put → kind (.put put)
  writeBatch : ∀ table entries, kind (.writeBatch table entries)
  getBatch : ∀ table keys, kind (.getBatch table keys)
  query : ∀ {key options read}, g.queryRead key options = .ok read →
    ∀ start limit, kind (.read { read with start, limit })
  scan : ∀ {segments options start reads}, g.scanReads segments options start = .ok reads →
    ∀ read ∈ reads, ∀ start limit, kind (.read { read with start, limit })

theorem Builds.perform (hbuilds : g.Builds kind) (h : g.Upholds I kind) (operation : Operation) :
    (g.perform operation).Respects I kind := by
  cases operation with
  | get key => exact (h.get hbuilds.get key).bind fun _ => .pure _
  | put item condition => exact (h.put fun _ => hbuilds.put).bind fun _ => .pure _
  | batchWrite entries => exact (h.batchWrite hbuilds.writeBatch entries).bind fun _ => .pure _
  | batchGet keys => exact (h.batchGet hbuilds.getBatch keys).bind fun _ => .pure _
  | query key options => exact (h.query fun _ => hbuilds.query).bind fun _ => .pure _
  | scan options start => exact (h.parallelScan fun _ => hbuilds.scan).bind fun _ => .pure _
  | parallelScan segments options start =>
    exact (h.parallelScan fun _ => hbuilds.scan).bind fun _ => .pure _

end Gateway

end KeyedTable
