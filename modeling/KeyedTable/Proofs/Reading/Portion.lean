import KeyedTable.Gateway.Resume
import KeyedTable.Proofs.Memory.Paging

namespace KeyedTable

theorem RetryPolicy.run_of_done {σ α : Type} (policy : RetryPolicy) {action : Action σ α} {s : σ}
    {value : α} (h : (action s).outcome = .done value) : policy.run action s = action s := by
  unfold run
  cases policy.maxRetries with
  | zero => rfl
  | succ left => simp only [attempts, h]

theorem Action.ofExcept_bind {σ α β : Type} {value : α} (next : α → Action σ β) :
    (Action.ofExcept (.ok value) >>= next) = next value := rfl

namespace Gateway

variable {σ κ : Type} {call : κ → Action σ Unit} {left : List Delivery → Option κ} {n : Nat}
  {cursor following : κ} {s t u : σ} {events rest : List Event}

theorem resume_last (h : call cursor s = ⟨.done (), t, events⟩)
    (hleft : left (deliveries events) = none) :
    ∀ calls, 1 ≤ calls → resume call left calls cursor s = ⟨.done 1, t, events⟩ := by
  intro calls hcalls
  obtain ⟨more, rfl⟩ := Nat.exists_eq_add_of_le' hcalls
  simp only [resume, h, hleft]

theorem resume_more (h : call cursor s = ⟨.done (), t, events⟩)
    (hleft : left (deliveries events) = some following)
    (hrest : ∀ calls, n ≤ calls → resume call left calls following t = ⟨.done n, u, rest⟩) :
    ∀ calls, n + 1 ≤ calls →
      resume call left calls cursor s = ⟨.done (n + 1), u, events ++ rest⟩ := by
  intro calls hcalls
  obtain ⟨more, rfl⟩ : ∃ more, calls = more + 1 := Nat.exists_eq_add_one.mpr (by omega)
  have hrun := hrest more (Nat.le_of_add_le_add_right hcalls)
  have hcount : (resume call left more following >>= fun n => return n + 1) t =
      ⟨.done (n + 1), u, rest⟩ := by
    rw [Action.bind_of_done (by rw [hrun]), hrun]
    simp
  simp only [resume, h, hleft, hcount]

end Gateway

def Event.LeavesAlone (a b : Event) : Prop :=
  ∀ page read refusal, a = .delivered page → page.next = none → b = .asked (.read read) refusal →
    read.scope.segmentNumber ≠ page.segment

@[simp] theorem deliveries_append (before after : List Event) :
    deliveries (before ++ after) = deliveries before ++ deliveries after :=
  List.filterMap_append

theorem lastCursor_append {before after : List Delivery} (h : after ≠ []) :
    lastCursor (before ++ after) = lastCursor after := by
  simp [lastCursor, List.getLast?_append, List.getLast?_eq_some_getLast h]

theorem lastCursor_cons (page : Delivery) {pages : List Delivery} (h : pages ≠ []) :
    lastCursor (page :: pages) = lastCursor pages := by
  rw [← List.singleton_append, lastCursor_append h]

namespace Memory

variable {m : Memory} {read : Read} {items rest left : List Item} {test : Option Condition}

/-- What a read is answered with, page by page. -/
structure Serves (m : Memory) (read : Read) (items : List Item) (test : Option Condition) :
    Prop where
  table : read.table = m.table.name
  scope : checkScope read.scope = .ok ()
  filter : read.placeholders.resolveFilter read.filter = .ok test
  candidates : m.candidates read = .ok items
  ordered : items.Pairwise (m.table.Before read.index read.scope.isForward)

structure Calm (m : Memory) : Prop where
  failing : m.failing = 0
  throttling : m.throttling = 0

theorem Calm.resized (h : m.Calm) (pageSize : Option Nat) : Calm { m with pageSize } :=
  ⟨h.failing, h.throttling⟩

theorem Serves.resumed (h : m.Serves read items test) (start : Option Item) (limit : Option Nat) :
    m.Serves { read with start, limit } items test :=
  ⟨h.table, h.scope, h.filter, h.candidates, h.ordered⟩

theorem Serves.read_eq (h : m.Serves read items test) :
    m.read read =
      .ok (m.page items read.index read.scope.isForward read.start read.limit test) := by
  rw [Memory.read, h.filter, h.candidates]
  rfl

theorem answer_read (hcalm : m.Calm) (h : m.Serves read items test) (tally : Tally) :
    Memory.answer (.read read) { m with tally } =
      (.ok (m.page items read.index read.scope.isForward read.start read.limit test),
        { m with tally := tally.add (.read read) }) := by
  have hcheck : Memory.check { m with tally } (.read read) = .ok () := by
    simp [check, Request.table, h.table, checkShape, h.scope]
  have hinterrupt : Memory.interrupt { m with tally } = none := by
    simp [interrupt, hcalm.failing, hcalm.throttling]
  simp only [answer, hcheck, hinterrupt]
  exact congrArg (·, _) h.read_eq

end Memory

namespace Gateway

def inMemory (table : Table) (retry : RetryPolicy) : Gateway Memory :=
  ⟨Store.memory, table, retry, fun _ m => m⟩

variable {m : Memory} {read : Read} {items rest left : List Item} {test : Option Condition}
  {page : Page}

theorem submit_inMemory (retry : RetryPolicy) (hcalm : m.Calm) (h : m.Serves read items test)
    (tally : Tally) :
    (inMemory m.table retry).submit (.read read) { m with tally } =
      ⟨.done (m.page items read.index read.scope.isForward read.start read.limit test),
        { m with tally := tally.add (.read read) }, [.asked (.read read) none]⟩ := by
  have hask : Action.ask Store.memory (.read read) { m with tally } =
      ⟨.done (m.page items read.index read.scope.isForward read.start read.limit test),
        { m with tally := tally.add (.read read) }, [.asked (.read read) none]⟩ := by
    have := Memory.answer_read hcalm h tally
    simp only [Action.ask, Store.memory, this]
  have hdone := congrArg Ran.outcome hask
  rw [← hask]
  exact RetryPolicy.run_of_done retry hdone

def delivery (table : Table) (prev : Option (Option Item)) (read : Read) (page : Page) :
    Delivery :=
  ⟨page.items, read.scope.segmentNumber,
    prev.getD (page.items.head?.map (table.cursor read.index)),
    page.lastKey.map (table.cursor read.index)⟩

theorem pages_of_done {σ : Type} {g : Gateway σ} {rounds : Nat} {prev : Option (Option Item)}
    {s t : σ} {events : List Event}
    (h : g.submit (.read read) s = ⟨.done page, t, events⟩) :
    g.pages (rounds + 1) prev read s =
      match page.lastKey, charge read.limit page.items.length with
      | some key, some limit =>
        let ran := g.pages rounds (some (delivery g.table prev read page).prev)
          { read with start := some key, limit } (g.visit (delivery g.table prev read page) t)
        ⟨ran.outcome, ran.store,
          events ++ .delivered (delivery g.table prev read page) :: ran.events⟩
      | _, _ =>
        ⟨.done (), g.visit (delivery g.table prev read page) t,
          events ++ [.delivered (delivery g.table prev read page)]⟩ := by
  obtain ⟨found, lastKey⟩ := page
  rw [pages, Action.bind_of_done (by rw [h]), h]
  cases lastKey with
  | none => rfl
  | some key =>
    cases charge read.limit found.length with
    | none => rfl
    | some limit => rfl

theorem pages_succ {table : Table} {retry : RetryPolicy} {rounds : Nat}
    {prev : Option (Option Item)} {s t : Memory} {events : List Event}
    (h : (inMemory table retry).submit (.read read) s = ⟨.done page, t, events⟩) :
    (inMemory table retry).pages (rounds + 1) prev read s =
      match page.lastKey, charge read.limit page.items.length with
      | some key, some limit =>
        let ran := (inMemory table retry).pages rounds
          (some (delivery table prev read page).prev) { read with start := some key, limit } t
        ⟨ran.outcome, ran.store, events ++ .delivered (delivery table prev read page) :: ran.events⟩
      | _, _ => ⟨.done (), t, events ++ [.delivered (delivery table prev read page)]⟩ :=
  pages_of_done h

/-- Pages that hand out the `rest` of the items up to `left`. Only the last may have no cursor, and
then nothing is left over. -/
structure Share (m : Memory) (read : Read) (items rest : List Item) (test : Option Condition)
    (pages : List Delivery) (left : List Item) : Prop where
  delivered : pages.flatMap Delivery.items ++ left.filter (Memory.kept test) =
    rest.filter (Memory.kept test)
  nonempty : pages ≠ []
  finished : lastCursor pages = none → left = []
  goesOn : ∀ key, lastCursor pages = some key →
    m.Ahead read.index read.scope.isForward items (some key) left ∧ left.length < rest.length
  closed : ∀ page ∈ pages, page.next = none → lastCursor pages = none

structure Portion (m : Memory) (read : Read) (items rest : List Item) (test : Option Condition)
    (events : List Event) (left : List Item) : Prop extends
    Share m read items rest test (deliveries events) left where
  segment : ∀ page ∈ deliveries events, page.segment = read.scope.segmentNumber
  asked : ∀ request refusal, Event.asked request refusal ∈ events →
    refusal = none ∧ ∃ r, request = .read r ∧ r.scope = read.scope
  leavesAlone : events.Pairwise Event.LeavesAlone

theorem charge_ne_zero {limit next : Option Nat} {fetched : Nat}
    (h : charge limit fetched = some next) : next ≠ some 0 := by
  cases limit with
  | none => cases h; simp
  | some n =>
    simp only [charge] at h
    split at h
    · cases h
    · cases h
      simp only [ne_eq, Option.some.injEq]
      omega

theorem asked_leavesAlone (request : Request) (refusal : Option Error) (event : Event) :
    (Event.asked request refusal).LeavesAlone event := by
  intro page read refusal hpage
  cases hpage

theorem delivered_leavesAlone {page : Delivery} (h : page.next ≠ none) (event : Event) :
    (Event.delivered page).LeavesAlone event :=
  fun _ _ _ hpage hnext => by cases hpage; exact absurd hnext h

theorem portion_single {prev : Option (Option Item)}
    (hitems : page.items ++ left.filter (Memory.kept test) = rest.filter (Memory.kept test))
    (hlast : page.lastKey = none → left = [])
    (hmore : ∀ key, page.lastKey = some key →
      m.Ahead read.index read.scope.isForward items (some key) left ∧ left.length < rest.length) :
    Portion m read items rest test
      [.asked (.read read) none, .delivered (delivery m.table prev read page)] left where
  delivered := by simpa [deliveries, delivery] using hitems
  nonempty := by simp [deliveries]
  finished h := hlast (by simpa [deliveries, lastCursor, delivery] using h)
  goesOn key h := by
    have hnext : page.lastKey.map (m.table.cursor read.index) = some key := h
    obtain ⟨last, hkey, rfl⟩ := Option.map_eq_some_iff.mp hnext
    obtain ⟨hahead, hshorter⟩ := hmore last hkey
    exact ⟨hahead.cursor, hshorter⟩
  closed page' h hnext := by
    obtain rfl := List.mem_singleton.mp h
    exact hnext
  segment page' h := by
    obtain rfl := List.mem_singleton.mp h
    rfl
  asked request refusal h := by
    obtain ⟨rfl, rfl⟩ : request = .read read ∧ refusal = none := by simpa using h
    exact ⟨rfl, read, rfl, rfl⟩
  leavesAlone := by
    refine List.pairwise_cons.mpr ⟨fun event _ => asked_leavesAlone _ _ event, ?_⟩
    exact List.pairwise_singleton _ _

theorem Portion.more {prev : Option (Option Item)} {seen after : List Item} {key : Item}
    {limit : Option Nat} {events : List Event}
    (h : Portion m { read with start := some key, limit } items after test events left)
    (hrest : rest = seen ++ after) (hitems : page.items = seen.filter (Memory.kept test))
    (hkey : page.lastKey = some key) :
    Portion m read items rest test
      (.asked (.read read) none :: .delivered (delivery m.table prev read page) :: events)
      left := by
  have hcursor : lastCursor (delivery m.table prev read page :: deliveries events) =
      lastCursor (deliveries events) := lastCursor_cons _ h.nonempty
  have hnext : (delivery m.table prev read page).next ≠ none := by simp [delivery, hkey]
  refine ⟨⟨?_, by simp [deliveries], fun hnone => h.finished (hcursor ▸ hnone), ?_, ?_⟩, ?_, ?_, ?_⟩
  · rw [hrest, List.filter_append, ← h.delivered, ← List.append_assoc, ← hitems]
    rfl
  · intro key' hkey'
    obtain ⟨hahead, hshorter⟩ := h.goesOn key' (hcursor ▸ hkey')
    refine ⟨hahead, Nat.lt_of_lt_of_le hshorter ?_⟩
    simp [hrest]
  · intro page' hpage' hnone
    cases List.mem_cons.mp hpage' with
    | inl heq => exact absurd (heq ▸ hnone) hnext
    | inr hmem => exact hcursor.trans (h.closed page' hmem hnone)
  · intro page' hpage'
    cases List.mem_cons.mp hpage' with
    | inl heq => rw [heq]; rfl
    | inr hmem => exact h.segment page' hmem
  · intro request refusal hmem
    cases List.mem_cons.mp hmem with
    | inl heq =>
      cases heq
      exact ⟨rfl, read, rfl, rfl⟩
    | inr hmem =>
      cases List.mem_cons.mp hmem with
      | inl heq => cases heq
      | inr hmem => exact h.asked request refusal hmem
  · refine List.pairwise_cons.mpr ⟨fun event _ => asked_leavesAlone _ _ event, ?_⟩
    exact List.pairwise_cons.mpr
      ⟨fun event _ => delivered_leavesAlone hnext event, h.leavesAlone⟩

theorem exists_portion (retry : RetryPolicy) (hcalm : m.Calm) (hpage : m.pageSize ≠ some 0)
    {rounds : Nat} (prev : Option (Option Item)) (h : m.Serves read items test)
    (hahead : m.Ahead read.index read.scope.isForward items read.start rest)
    (hlimit : read.limit ≠ some 0) (hrounds : rest.length < rounds) (tally : Tally) :
    ∃ after events left,
      (inMemory m.table retry).pages rounds prev read { m with tally } =
        ⟨.done (), { m with tally := after }, events⟩ ∧
      Portion m read items rest test events left := by
  induction rounds generalizing read prev rest tally with
  | zero => exact absurd hrounds (Nat.not_lt_zero _)
  | succ rounds ih =>
    -- A page that is not the last one looks at an item, so one round less is enough for the rest.
    rw [pages_succ (submit_inMemory retry hcalm h tally)]
    generalize hturn :
      m.page items read.index read.scope.isForward read.start read.limit test = page
    cases hturn ▸ Memory.turn_page h.ordered hahead hlimit hpage test with
    | last hkey hitems =>
      simp only [hkey]
      exact ⟨_, _, [], rfl, portion_single (by simp [hitems]) (fun _ => rfl) (by simp [hkey])⟩
    | @more seen left key hrest hseen hleft hitems hkey hahead =>
      have hshorter : left.length < rest.length := by
        have := List.length_pos_iff.mpr hseen
        rw [hrest, List.length_append]
        omega
      simp only [hkey]
      cases hcharge : charge read.limit page.items.length with
      | none =>
        refine ⟨_, _, left, rfl, portion_single ?_ (by simp [hkey]) fun key' hkey' => ?_⟩
        · rw [hitems, hrest, List.filter_append]
        · obtain rfl : key = key' := Option.some.inj (hkey.symm.trans hkey')
          exact ⟨hahead, hshorter⟩
      | some limit =>
        obtain ⟨after, events, rest', hran, hportion⟩ := ih
          (some (delivery m.table prev read page).prev) (h.resumed (some key) limit) hahead
          (charge_ne_zero hcharge) (by omega) (tally.add (.read read))
        simp only [hran]
        exact ⟨_, _, rest', rfl, hportion.more hrest hitems hkey⟩

end Gateway

end KeyedTable
