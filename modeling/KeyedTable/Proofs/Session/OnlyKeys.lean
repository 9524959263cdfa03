import KeyedTable.Gateway.Session
import KeyedTable.Proofs.Gateway.SideBySide
import KeyedTable.Proofs.Gateway.Together
import KeyedTable.Proofs.Memory.Becoming
import KeyedTable.Proofs.Memory.Shown
import KeyedTable.Proofs.Reading.Turns

namespace KeyedTable

theorem relate_self {α : Type} {R : α → α → Prop} (h : ∀ a, R a a) (o : Option α) :
    Option.Rel R o o := by
  cases o with
  | none => exact .none
  | some a => exact .some (h a)

namespace Table

variable {table : Table} {index : Option String} {x y : Item}

/-- Whether the items have the same primary key, and the same key of the index that is read. -/
structure Agree (table : Table) (index : Option String) (x y : Item) : Prop where
  primary : table.primaryKey.Same x y
  index : ∀ schema ∈ index.bind table.indexes.get?, schema.Same x y

instance (table : Table) (index : Option String) (x y : Item) : Decidable (table.Agree index x y) :=
  decidable_of_iff
    (table.primaryKey.Same x y ∧ ∀ schema ∈ index.bind table.indexes.get?, schema.Same x y)
    ⟨fun h => ⟨h.1, h.2⟩, fun h => ⟨h.primary, h.index⟩⟩

theorem Agree.refl (table : Table) (index : Option String) (x : Item) : table.Agree index x x :=
  ⟨.refl _ x, fun _ _ => .refl _ x⟩

theorem keyOf_of_same (h : table.primaryKey.Same x y) : table.keyOf x = table.keyOf y := by
  refine SortedMap.ext_get? fun name => ?_
  simp only [get?_keyOf]
  split
  next hname => exact h.agree name ((table.primaryKey.contains_iff name).mp hname)
  next => rfl

theorem Agree.readOrder_eq (h : table.Agree index x y) :
    table.readOrder index x = table.readOrder index y := by
  have hprimary := h.primary.orderTexts_eq
  cases hschema : index.bind table.indexes.get? with
  | none => simp only [readOrder, hschema, hprimary, Option.map_none]
  | some schema =>
    have hindex := (h.index schema hschema).orderTexts_eq
    simp only [readOrder, hschema, hprimary, Option.map_some, hindex]

theorem agree_cursor (h : table.primaryKey.Agree x y) (index : Option String) :
    table.primaryKey.Agree (table.cursor index x) (table.cursor index y) := by
  intro name hname
  rw [table.get?_cursor_of_primary index x hname, table.get?_cursor_of_primary index y hname]
  exact h name hname

end Table

inductive Read.Matches (table : Table) : Read → Read → Prop
  | intro {read : Read} {start other : Option Item} :
      Option.Rel (table.Agree read.index) start other →
      Matches table { read with start } { read with start := other }

theorem Read.Matches.refl (table : Table) (read : Read) : read.Matches table read :=
  @intro table read read.start read.start (relate_self (.refl table read.index) _)

structure Delivery.Matches (table : Table) (page other : Delivery) : Prop where
  items : other.items = page.items
  segment : other.segment = page.segment
  next : other.next = page.next
  prev : Option.Rel table.primaryKey.Agree page.prev other.prev

theorem Delivery.Matches.refl (table : Table) (page : Delivery) : page.Matches table page :=
  ⟨rfl, rfl, rfl, relate_self (.refl _) _⟩

inductive Event.Matches (table : Table) : Event → Event → Prop
  | same (event : Event) : Matches table event event
  | asked {read other : Read} (refusal : Option Error) : read.Matches table other →
      Matches table (.asked (.read read) refusal) (.asked (.read other) refusal)
  | delivered {page other : Delivery} : page.Matches table other →
      Matches table (.delivered page) (.delivered other)

inductive WriteEntry.Matches (table : Table) : WriteEntry → WriteEntry → Prop
  | put (item : Item) : Matches table (.put item) (.put item)
  | delete {x y : Item} : table.primaryKey.Same x y → Matches table (.delete x) (.delete y)

inductive Operation.Matches (table : Table) : Operation → Operation → Prop
  | get {x y : Item} : table.primaryKey.Same x y → Matches table (.get x) (.get y)
  | put (item : Item) (condition : Option String) :
      Matches table (.put item condition) (.put item condition)
  | batchWrite {entries others : List WriteEntry} :
      List.Forall₂ (WriteEntry.Matches table) entries others →
      Matches table (.batchWrite entries) (.batchWrite others)
  | batchGet {keys others : List Item} : List.Forall₂ table.primaryKey.Same keys others →
      Matches table (.batchGet keys) (.batchGet others)
  | query (key : String) (options : QueryOptions) {start other : Option Item} :
      Option.Rel (table.Agree options.index) start other →
      Matches table (.query key { options with start })
        (.query key { options with start := other })
  | scan (options : ScanOptions) {start other : Option Item} :
      Option.Rel (table.Agree options.index) start other →
      Matches table (.scan options start) (.scan options other)
  | parallelScan (segments : Nat) (options : ScanOptions)
      {start other : Option (List (Option Item))} :
      Option.Rel (List.Forall₂ (Option.Rel (table.Agree options.index))) start other →
      Matches table (.parallelScan segments options start) (.parallelScan segments options other)

def Receiver.Overlooks (table : Table) (receiver : Receiver) : Prop :=
  ∀ pages others, List.Forall₂ (Delivery.Matches table) pages others →
    receiver others = receiver pages

inductive SessionStep.Matches (table : Table) : SessionStep → SessionStep → Prop
  | inject (injection : Injection) : Matches table (.inject injection) (.inject injection)
  | perform {operation other : Operation} {receiver : Receiver} (schedule : List Nat) :
      operation.Matches table other → receiver.Overlooks table →
      Matches table (.perform operation receiver schedule) (.perform other receiver schedule)

namespace Memory

variable {m : Memory} {index : Option String} {x y : Item}

theorem isBeyond_of_agree (h : m.table.Agree index x y) (forward : Bool) :
    m.isBeyond index forward (some y) = m.isBeyond index forward (some x) := by
  funext item
  simp only [isBeyond, h.readOrder_eq]

theorem read_of_agree {read : Read} (h : m.table.Agree read.index x y) :
    m.read { read with start := some y } = m.read { read with start := some x } := by
  have hcandidates : m.candidates { read with start := some y } =
      m.candidates { read with start := some x } := rfl
  simp only [Memory.read, hcandidates, page, isBeyond_of_agree h]

theorem answer_of_matches {read other : Read} (h : read.Matches m.table other) :
    m.answer (.read other) = m.answer (.read read) := by
  obtain ⟨hstart⟩ := h
  cases hstart with
  | none => rfl
  | @some x y hagree =>
    simp only [answer, serve, read_of_agree (m := m.count _) hagree]
    rfl

end Memory

structure Alongside (table : Table) (s t : Memory × List Delivery) : Prop where
  memory : t.1 = s.1
  pages : List.Forall₂ (Delivery.Matches table) s.2 t.2
  table : s.1.table = table

namespace Alongside

variable {table : Table} {s t : Memory × List Delivery}

theorem answer (h : Alongside table s t) (request : Request) :
    Alongside table ((s.1.answer request).2, s.2) ((t.1.answer request).2, t.2) :=
  ⟨by rw [h.memory], h.pages, (s.1.answer_settings request).1.trans h.table⟩

theorem visit (h : Alongside table s t) {receiver : Receiver} (hreceiver : receiver.Overlooks table)
    {page other : Delivery} (hpage : page.Matches table other) :
    Alongside table (receiver.visit page s) (receiver.visit other t) := by
  have hpages := List.rel_append h.pages (.cons hpage .nil)
  refine ⟨?_, hpages, h.table⟩
  rw [Receiver.visit, Receiver.visit, h.memory, hreceiver _ _ hpages]

theorem horizon (h : Alongside table s t) {retry : RetryPolicy} {receiver : Receiver} :
    (Gateway.received table retry receiver).store.horizon t =
      (Gateway.received table retry receiver).store.horizon s :=
  congrArg Store.memory.horizon h.memory

end Alongside

namespace Gateway

variable {table : Table} {retry : RetryPolicy} {receiver : Receiver}

theorem received_sideBySide (retry : RetryPolicy) (hreceiver : receiver.Overlooks table) :
    (received table retry receiver).SideBySide (Alongside table) (Read.Matches table)
      (Event.Matches table) (received table retry receiver) where
  answers request s t hst := by
    have hanswer := hst.answer request
    simp only [received, Store.beside, Store.memory, hst.memory] at hanswer ⊢
    exact ⟨trivial, hanswer⟩
  reads read other s t hread hst := by
    have hanswer := hst.answer (.read read)
    have hsame : s.1.answer (.read other) = s.1.answer (.read read) :=
      Memory.answer_of_matches (hst.table.symm ▸ hread)
    simp only [received, Store.beside, Store.memory, hst.memory, hsame] at hanswer ⊢
    exact ⟨trivial, hanswer⟩
  asked request refusal := .same _
  askedRead read other refusal := .asked refusal
  receives event event' s t hevent hst := by
    cases hevent with
    | same event =>
      cases event with
      | delivered page => exact hst.visit hreceiver (.refl table page)
      | asked | waited | logged => exact hst
    | asked refusal hread => exact hst
    | delivered hpage => exact hst.visit hreceiver hpage

theorem reading_sideBySide {σ : Type} (g : Gateway σ) (pauses : Pauses) (rounds : Nat)
    {prev prev' : Option (Option Item)}
    (hprev : Option.Rel (Option.Rel table.primaryKey.Agree) prev prev') {read other : Read}
    (hread : read.Matches table other) :
    (g.reading pauses rounds prev read).SideBySide (Read.Matches table) (Event.Matches table)
      (g.reading pauses rounds prev' other) := by
  induction rounds generalizing prev prev' read other with
  | zero => exact .ended .unfinished
  | succ rounds ih =>
    have hsame : ∀ event, Event.Matches table event event := .same
    have hasking := Task.SideBySide.asking (fun _ => hsame _) (fun _ => hsame _) g.retry pauses
      hread g.retry.maxRetries 0
    refine hasking.bind fun page => ?_
    obtain @⟨read, start, start', hstart⟩ := hread
    have hsettled : ∀ first : Option Item,
        Option.Rel table.primaryKey.Agree (prev.getD first) (prev'.getD first) := by
      intro first
      cases hprev with
      | none => exact relate_self (.refl _) first
      | some h => exact h
    refine .emit (.delivered ⟨rfl, rfl, rfl, hsettled _⟩) ?_
    cases page.lastKey with
    | none => exact .ended (.done ())
    | some key =>
      cases charge read.limit page.items.length with
      | none => exact .ended (.done ())
      | some limit =>
        exact ih (.some (hsettled _)) (.refl table { read with start := some key, limit })

theorem readStart_sideBySide (retry : RetryPolicy) (receiver : Receiver) (pauses : Pauses)
    {read other : Read} (hread : read.Matches table other) {s t : Memory × List Delivery}
    (hst : Alongside table s t) :
    ((received table retry receiver).readStart pauses read s).SideBySide (Read.Matches table)
      (Event.Matches table) ((received table retry receiver).readStart pauses other t) := by
  unfold readStart
  rw [hst.horizon]
  exact reading_sideBySide _ pauses _ (.some .none) hread

theorem readFrom_sideBySide (retry : RetryPolicy) (hreceiver : receiver.Overlooks table)
    {prev prev' : Option (Option Item)}
    (hprev : Option.Rel (Option.Rel table.primaryKey.Agree) prev prev') {read other : Read}
    (hread : read.Matches table other) :
    Action.SideBySide Eq (Alongside table) (Event.Matches table)
      ((received table retry receiver).readFrom prev read)
      ((received table retry receiver).readFrom prev' other) := by
  intro s t hst
  have hreading := reading_sideBySide (received table retry receiver) ⟨false, false⟩
    ((received table retry receiver).store.horizon s + 1) hprev hread
  have hran := (received_sideBySide retry hreceiver).carryOut hreading s t hst
  rw [carryOut_reading, carryOut_reading] at hran
  rwa [readFrom, readFrom, hst.horizon]

theorem reduce_eq {entries others : List WriteEntry}
    (h : List.Forall₂ (WriteEntry.Matches table) entries others) :
    entries.map (WriteEntry.reduce table) = others.map (WriteEntry.reduce table) := by
  induction h with
  | nil => rfl
  | cons hentry _ ih =>
    rw [List.map_cons, List.map_cons, ih]
    cases hentry with
    | put item => rfl
    | delete hsame => simp only [WriteEntry.reduce, Table.keyOf_of_same hsame]

theorem keysOf_eq {keys others : List Item}
    (h : List.Forall₂ table.primaryKey.Same keys others) :
    keys.map table.keyOf = others.map table.keyOf := by
  induction h with
  | nil => rfl
  | cons hsame _ ih => exact congrArg₂ List.cons (Table.keyOf_of_same hsame) ih

theorem submit_sideBySide (retry : RetryPolicy) (hreceiver : receiver.Overlooks table)
    (request : Request) :
    Action.SideBySide Eq (Alongside table) (Event.Matches table)
      ((received table retry receiver).submit request)
      ((received table retry receiver).submit request) := by
  rw [← carryOut_asking _ ⟨false, false⟩]
  exact (received_sideBySide retry hreceiver).carryOut (.refl .same _)

theorem get_sideBySide (retry : RetryPolicy) (hreceiver : receiver.Overlooks table) {x y : Item}
    (h : table.primaryKey.Same x y) :
    Action.SideBySide Eq (Alongside table) (Event.Matches table)
      ((received table retry receiver).get x) ((received table retry receiver).get y) := by
  have hkey : (received table retry receiver).table.keyOf x =
      (received table retry receiver).table.keyOf y :=
    Table.keyOf_of_same h
  rw [get, get, hkey]
  refine (submit_sideBySide retry hreceiver _).bind ?_
  rintro item _ rfl
  exact (Action.SideBySide.note (.same _)).bind fun _ _ _ => .pure rfl

theorem put_sideBySide (retry : RetryPolicy) (hreceiver : receiver.Overlooks table) (item : Item)
    (condition : Option String) :
    Action.SideBySide Eq (Alongside table) (Event.Matches table)
      ((received table retry receiver).put item condition)
      ((received table retry receiver).put item condition) := by
  refine (Action.SideBySide.ofExcept _).bind ?_
  rintro put _ rfl
  exact (submit_sideBySide retry hreceiver (.put put)).bind fun _ _ _ => .note (.same _)

theorem together_sideBySide {α ξ : Type} (retry : RetryPolicy)
    (hreceiver : receiver.Overlooks table) (schedule : List Nat) (blocks : List ξ)
    {start : ξ → Memory × List Delivery → Task α}
    (hstart : ∀ block s t, Alongside table s t → start block t = start block s) :
    Action.SideBySide Eq (Alongside table) (Event.Matches table)
      ((received table retry receiver).together schedule (blocks.map start))
      ((received table retry receiver).together schedule (blocks.map start)) := by
  rw [← List.forall₂_eq_eq_eq]
  refine (received_sideBySide retry hreceiver).together schedule
    (List.forall₂_same.mpr fun own hown s t hst => ?_)
  obtain ⟨block, -, rfl⟩ := List.mem_map.mp hown
  rw [hstart block s t hst]
  exact .refl .same _

theorem writeTogether_sideBySide (retry : RetryPolicy) (hreceiver : receiver.Overlooks table)
    (pauses : Pauses) (schedule : List Nat) {entries others : List WriteEntry}
    (h : List.Forall₂ (WriteEntry.Matches table) entries others) :
    Action.SideBySide Eq (Alongside table) (Event.Matches table)
      ((received table retry receiver).writeTogether pauses schedule entries)
      ((received table retry receiver).writeTogether pauses schedule others) := by
  have hreduced : entries.map (WriteEntry.reduce (received table retry receiver).table) =
      others.map (WriteEntry.reduce (received table retry receiver).table) :=
    reduce_eq h
  simp only [writeTogether, hreduced]
  refine (together_sideBySide retry hreceiver schedule _ fun block s t hst => ?_).bind
    fun _ _ _ => .note (.same _)
  simp only [writeStart, hst.horizon]

theorem getTogether_sideBySide (retry : RetryPolicy) (hreceiver : receiver.Overlooks table)
    (pauses : Pauses) (schedule : List Nat) {keys others : List Item}
    (h : List.Forall₂ table.primaryKey.Same keys others) :
    Action.SideBySide Eq (Alongside table) (Event.Matches table)
      ((received table retry receiver).getTogether pauses schedule keys)
      ((received table retry receiver).getTogether pauses schedule others) := by
  have hkeys : keys.map (received table retry receiver).table.keyOf =
      others.map (received table retry receiver).table.keyOf :=
    keysOf_eq h
  simp only [getTogether, hkeys]
  refine (together_sideBySide retry hreceiver schedule _ fun block s t hst => ?_).bind ?_
  · simp only [getStart, hst.horizon]
  · rintro found _ rfl
    exact (Action.SideBySide.note (.same _)).bind fun _ _ _ => .pure rfl

theorem queryRead_start {σ : Type} (g : Gateway σ) (key : String) (options : QueryOptions)
    (start : Option Item) :
    g.queryRead key { options with start } =
      (g.queryRead key options).map fun read => { read with start } := by
  simp only [queryRead]
  cases checkLimit options.limit with
  | error error => rfl
  | ok _ =>
    cases (compileKey key none).mapError Error.expression with
    | error error => rfl
    | ok condition =>
      simp only [bind, Except.bind]
      cases filterExpression options.filter (some condition) with
      | error error => rfl
      | ok filter => rfl

theorem query_sideBySide (retry : RetryPolicy) (hreceiver : receiver.Overlooks table)
    (key : String) (options : QueryOptions) {start other : Option Item}
    (h : Option.Rel (table.Agree options.index) start other) :
    Action.SideBySide Eq (Alongside table) (Event.Matches table)
      ((received table retry receiver).query key { options with start })
      ((received table retry receiver).query key { options with start := other }) := by
  rw [query, query, queryRead_start _ _ options start, queryRead_start _ _ options other]
  cases hread : (received table retry receiver).queryRead key options with
  | error error => exact fun _ _ hst => ⟨.failed error, hst, .nil⟩
  | ok read =>
    obtain ⟨hindex, -, -⟩ := queryRead_settings hread
    simp only [Except.map, Action.ofExcept_bind]
    refine readFrom_sideBySide retry hreceiver ?_ (.intro (hindex ▸ h))
    cases h with
    | none => exact .none
    | some h => exact .some (.some (Table.agree_cursor h.primary.agree options.index))

theorem segmentStarts_matches {index : Option String} {segments : Nat}
    {start other : Option (List (Option Item))}
    (h : Option.Rel (List.Forall₂ (Option.Rel (table.Agree index))) start other) :
    List.Forall₂ (fun first first' => first'.1 = first.1 ∧
        Option.Rel (table.Agree index) first.2 first'.2)
      (segmentStarts segments start) (segmentStarts segments other) := by
  cases h with
  | none => exact List.forall₂_same.mpr fun first _ => ⟨rfl, relate_self (.refl table index) _⟩
  | @some cursors others hcursors =>
    suffices hfrom : ∀ number, List.Forall₂ _
        ((cursors.zipIdx number).filterMap fun cursor =>
          cursor.1.map fun key => (cursor.2, some key))
        ((others.zipIdx number).filterMap fun cursor =>
          cursor.1.map fun key => (cursor.2, some key))
      from hfrom 0
    induction hcursors with
    | nil => exact fun _ => .nil
    | cons hcursor _ ih =>
      intro number
      cases hcursor with
      | none => exact ih (number + 1)
      | some hagree => exact .cons ⟨rfl, .some hagree⟩ (ih (number + 1))

theorem checkCursors_eq {R : Option Item → Option Item → Prop} {segments : Nat}
    {start other : Option (List (Option Item))} (h : Option.Rel (List.Forall₂ R) start other) :
    checkCursors segments other = checkCursors segments start := by
  cases h with
  | none => rfl
  | some hcursors => simp only [checkCursors, hcursors.length_eq]

theorem scanReads_matches {σ : Type} (g : Gateway σ) (segments : Nat) (options : ScanOptions)
    {start other : Option (List (Option Item))}
    (h : Option.Rel (List.Forall₂ (Option.Rel (table.Agree options.index))) start other) :
    (∃ error, g.scanReads segments options start = .error error ∧
        g.scanReads segments options other = .error error) ∨
      ∃ reads others, g.scanReads segments options start = .ok reads ∧
        g.scanReads segments options other = .ok others ∧
        List.Forall₂ (Read.Matches table) reads others := by
  simp only [scanReads, checkCursors_eq h]
  cases checkCursors segments start with
  | error error => exact .inl ⟨error, rfl, rfl⟩
  | ok _ =>
    cases checkLimit options.limit with
    | error error => exact .inl ⟨error, rfl, rfl⟩
    | ok _ =>
      cases filterExpression options.filter none with
      | error error => exact .inl ⟨error, rfl, rfl⟩
      | ok filter =>
        refine .inr ⟨_, _, rfl, rfl, ?_⟩
        refine List.forall₂_map_left_iff.mpr (List.forall₂_map_right_iff.mpr
          ((segmentStarts_matches h).imp ?_))
        rintro ⟨_, key⟩ ⟨number, key'⟩ ⟨rfl, hagree⟩
        exact @Read.Matches.intro table
          ⟨g.table.name, options.index, .segment number segments, _, _, none, _⟩ key key' hagree

theorem scanTogether_sideBySide (retry : RetryPolicy) (hreceiver : receiver.Overlooks table)
    (pauses : Pauses) (schedule : List Nat) (segments : Nat) (options : ScanOptions)
    {start other : Option (List (Option Item))}
    (h : Option.Rel (List.Forall₂ (Option.Rel (table.Agree options.index))) start other) :
    Action.SideBySide Eq (Alongside table) (Event.Matches table)
      ((received table retry receiver).scanTogether pauses schedule segments options start)
      ((received table retry receiver).scanTogether pauses schedule segments options other) := by
  obtain ⟨error, herror, herror'⟩ | ⟨reads, others, hreads, hothers, hmatch⟩ :=
    scanReads_matches (received table retry receiver) segments options h
  · simp only [scanTogether, herror, herror']
    exact fun _ _ hst => ⟨.failed error, hst, .nil⟩
  · simp only [scanTogether, hreads, hothers, Action.ofExcept_bind]
    refine ((received_sideBySide retry hreceiver).together schedule ?_).bind fun _ _ _ => .pure rfl
    refine List.forall₂_map_left_iff.mpr (List.forall₂_map_right_iff.mpr (hmatch.imp ?_))
    exact fun read other hread s t hst => readStart_sideBySide retry receiver pauses hread hst

theorem parallelScan_eq_scanTogether {σ : Type} (g : Gateway σ) (segments : Nat)
    (options : ScanOptions) (start : Option (List (Option Item))) :
    g.parallelScan segments options start =
      g.scanTogether ⟨false, false⟩ [] segments options start :=
  funext fun s => (scanTogether_unpaused [] segments options start s).symm

theorem performTogether_sideBySide (retry : RetryPolicy) (hreceiver : receiver.Overlooks table)
    (pauses : Pauses) (schedule : List Nat) {operation other : Operation}
    (h : operation.Matches table other) :
    Action.SideBySide Eq (Alongside table) (Event.Matches table)
      ((received table retry receiver).performTogether pauses schedule operation)
      ((received table retry receiver).performTogether pauses schedule other) := by
  cases h with
  | get hsame => exact (get_sideBySide retry hreceiver hsame).bind fun _ _ h => .pure (h ▸ rfl)
  | put item condition =>
    exact (put_sideBySide retry hreceiver item condition).bind fun _ _ _ => .pure rfl
  | batchWrite hentries =>
    exact (writeTogether_sideBySide retry hreceiver pauses schedule hentries).bind
      fun _ _ _ => .pure rfl
  | batchGet hkeys =>
    exact (getTogether_sideBySide retry hreceiver pauses schedule hkeys).bind
      fun _ _ h => .pure (h ▸ rfl)
  | query key options hstart =>
    exact (query_sideBySide retry hreceiver key options hstart).bind fun _ _ _ => .pure rfl
  | @scan options start other hstart =>
    have hstarts : Option.Rel (List.Forall₂ (Option.Rel (table.Agree options.index)))
        (start.map fun cursor => [some cursor]) (other.map fun cursor => [some cursor]) := by
      cases hstart with
      | none => exact .none
      | some hagree => exact .some (.cons (.some hagree) .nil)
    have hscan := scanTogether_sideBySide retry hreceiver ⟨false, false⟩ [] 1 options hstarts
    rw [← parallelScan_eq_scanTogether, ← parallelScan_eq_scanTogether] at hscan
    exact hscan.bind fun _ _ _ => .pure rfl
  | parallelScan segments options hstart =>
    exact (scanTogether_sideBySide retry hreceiver pauses schedule segments options hstart).bind
      fun _ _ _ => .pure rfl

end Gateway

/-- Two runs of an operation with one result. The requests are the same but for the starts that
were given, and so are the pages but for what they say about where the read began. -/
structure Ran.Matches (table : Table) (ran other : Ran Memory Yield) : Prop where
  outcome : other.outcome = ran.outcome
  store : other.store = ran.store
  pages : List.Forall₂ (Delivery.Matches table) (deliveries ran.events) (deliveries other.events)
  events : List.Forall₂ (Event.Matches table) ran.events other.events

theorem deliveries_matches {table : Table} {events others : List Event}
    (h : List.Forall₂ (Event.Matches table) events others) :
    List.Forall₂ (Delivery.Matches table) (deliveries events) (deliveries others) := by
  refine List.rel_filterMap (fun event other hevent => ?_) h
  cases hevent with
  | same event => exact relate_self (fun page => ⟨rfl, rfl, rfl, relate_self (.refl _) _⟩) _
  | asked refusal hread => exact .none
  | delivered hpage => exact .some hpage

/-- Only key attributes matter where a key is expected. Let two sessions on a table do the same but
for the items that a get, a batch get or a delete is given, which need to have the same primary key
only, and for the items that reads are to begin after, which need to have the same key of the index
as well. Then every operation comes to the same, leaves the same table and hands out the same pages
with the same cursors to go on from. -/
theorem only_keys_matter {table : Table} {m : Memory} (hm : m.table = table) (retry : RetryPolicy)
    (pauses : Pauses) {steps others : List SessionStep}
    (h : List.Forall₂ (SessionStep.Matches table) steps others) :
    List.Forall₂ (Ran.Matches table) (session table retry pauses steps m)
      (session table retry pauses others m) := by
  induction h generalizing m with
  | nil => exact .nil
  | cons hstep _ ih =>
    cases hstep with
    | inject injection => exact @ih (m.inject injection) hm
    | perform schedule hoperation hreceiver =>
      have hran := Gateway.performTogether_sideBySide retry hreceiver pauses schedule hoperation
        (m, []) (m, []) ⟨rfl, .nil, hm⟩
      have hrest := ih hran.store.table
      have houtcome := (Outcome.rel_eq_iff.mp hran.outcome).symm
      simp only [session, hran.store.memory]
      exact .cons ⟨houtcome, rfl, deliveries_matches hran.events, hran.events⟩ hrest

theorem only_keys_matter_through_index :
    let table : Table := ⟨"orders", ⟨"user", some "day"⟩,
      (SortedMap.empty.insert "totals" ⟨"user", some "total"⟩).insert "states" ⟨"state", none⟩⟩
    let item (day total state : String) : Item :=
      (((SortedMap.empty.insert "user" (.string "u")).insert "day" (.string day)).insert "total"
        (.number total)).insert "state" (.string state)
    let x := (item "1" "10" "open").insert "note" (.string "n")
    let y := item "1" "10" "paid"
    let m := Memory.new table (some 1) [x, item "2" "20" "open", item "3" "30" "paid"]
    let receiver : Receiver := fun pages => ⟨none, if pages.length = 1 then some 1 else none, none⟩
    let steps (key : Item) : List SessionStep :=
      [.inject ⟨none, some 1, some 1⟩, .perform (.batchGet [key, item "3" "" ""]) receiver [],
        .perform (.query "user = \"u\"" ⟨some "totals", none, true, some key, none⟩) receiver [],
        .perform (.batchWrite [.delete key]) receiver [], .perform (.get key) receiver []]
    let ran (key : Item) := session table .standard ⟨false, true⟩ (steps key) m
    let prev (key : Item) : List (Option Item) :=
      (ran key).flatMap fun ran => (deliveries ran.events).map Delivery.prev
    table.Agree (some "totals") x y ∧
      List.Forall₂ (Ran.Matches table) (ran x) (ran y) ∧
      (ran y).map (fun ran => (ran.outcome, ran.store.items.size)) =
        [(.done (.items [x, item "3" "30" "paid"]), 3), (.done .nothing, 3), (.done .nothing, 2),
          (.done (.item none), 2)] ∧
      prev x ≠ prev y := by
  intro table item x y m receiver steps ran prev
  have hagree : table.Agree (some "totals") x y := by decide +kernel
  have hreceiver : receiver.Overlooks table := by
    intro pages others hpages
    simp only [receiver, hpages.length_eq]
  have hsteps : List.Forall₂ (SessionStep.Matches table) (steps x) (steps y) :=
    .cons (.inject _) <|
    .cons (.perform [] (.batchGet (.cons hagree.primary (.cons (.refl _ _) .nil))) hreceiver) <|
    .cons (.perform [] (.query _ ⟨some "totals", none, true, none, none⟩ (.some hagree))
      hreceiver) <|
    .cons (.perform [] (.batchWrite (.cons (.delete hagree.primary) .nil)) hreceiver) <|
    .cons (.perform [] (.get hagree.primary) hreceiver) .nil
  have hmatch := only_keys_matter (show m.table = table from rfl) .standard ⟨false, true⟩ hsteps
  refine ⟨hagree, hmatch, ?_, ?_⟩
  · decide +kernel
  · decide +kernel

end KeyedTable
