import KeyedTable.Proofs.Batch.Writing
import KeyedTable.Proofs.Session.Course

namespace KeyedTable

def Outcome.isDone {α : Type} : Outcome α → Bool
  | .done _ => true
  | .failed _ | .unfinished => false

theorem Outcome.isDone_iff {α : Type} {outcome : Outcome α} :
    outcome.isDone = true ↔ ∃ value, outcome = .done value := by
  cases outcome <;> simp [isDone]

theorem Action.exists_of_bind_done {σ α β : Type} {first : Action σ α} {next : α → Action σ β}
    {s : σ} {result : β} (h : ((first >>= next) s).outcome = .done result) :
    ∃ value, (first s).outcome = .done value ∧
      (next value (first s).store).outcome = .done result := by
  simp only [bind_apply, bind] at h
  cases houtcome : (first s).outcome with
  | done value => exact ⟨value, rfl, by simpa only [houtcome] using h⟩
  | failed | unfinished => simp only [houtcome, reduceCtorEq] at h

theorem Action.bind_of_not_done {σ α β : Type} {first : Action σ α} (next : α → Action σ β) {s : σ}
    (h : (first s).outcome.isDone = false) :
    ((first >>= next) s).outcome.isDone = false ∧ ((first >>= next) s).store = (first s).store ∧
      ((first >>= next) s).events = (first s).events := by
  simp only [bind_apply, bind]
  cases houtcome : (first s).outcome with
  | done value => rw [houtcome] at h; cases h
  | failed error => exact ⟨rfl, rfl, rfl⟩
  | unfinished => exact ⟨rfl, rfl, rfl⟩

def Action.Writes {α : Type} (entries : List WriteEntry)
    (action : Action (Memory × List Delivery) α) : Prop :=
  ∀ s, Memory.Wrote entries ((action s).outcome.isDone = true) s.1 (action s).store.1

namespace Action.Writes

variable {α β : Type} {entries : List WriteEntry}
  {first action : Action (Memory × List Delivery) α} {s : Memory × List Delivery}

theorem of_silent (h : ∀ s, (action s).store = s) : action.Writes [] :=
  fun s => .nothing (by rw [h]) (by rw [h])

theorem bind_at (others : List WriteEntry) (next : α → Action (Memory × List Delivery) β)
    (h : Memory.Wrote entries ((first s).outcome.isDone = true) s.1 (first s).store.1)
    (hnext : ∀ value, (first s).outcome = .done value →
      Memory.Wrote others ((next value (first s).store).outcome.isDone = true) (first s).store.1
        (next value (first s).store).store.1) :
    Memory.Wrote (entries ++ others) (((first >>= next) s).outcome.isDone = true) s.1
      ((first >>= next) s).store.1 := by
  cases houtcome : (first s).outcome with
  | done value =>
    rw [bind_of_done houtcome]
    rw [houtcome] at h
    exact h.append (hnext value houtcome) fun hdone => ⟨rfl, hdone⟩
  | failed | unfinished =>
    obtain ⟨hdone, hstore, -⟩ :=
      bind_of_not_done next (by rw [houtcome]; rfl : (first s).outcome.isDone = false)
    rw [hstore, hdone]
    exact h.append (Memory.Wrote.refused rfl rfl id : Memory.Wrote others False _ _) nofun

theorem then_silent (h : first.Writes entries) (next : α → Action (Memory × List Delivery) β)
    (hnext : ∀ value t, (next value t).store = t) :
    (first >>= next).Writes entries := by
  intro s
  have hwrote := bind_at [] next (h s) fun value _ => of_silent (hnext value) (first s).store
  rwa [List.append_nil] at hwrote

end Action.Writes

namespace Gateway

variable {table : Table} {retry : RetryPolicy} {receiver : Receiver}

theorem Follows.toMemory {s t : Memory × List Delivery} {whole : List Happening}
    (h : (received table retry receiver).Follows s whole t)
    (hquiet : ∀ event, .emitted event ∈ whole → event.IsQuiet) :
    (inMemory table retry).Follows s.1 whole t.1 := by
  induction h with
  | nothing => exact .nothing
  | exchanged hanswer _ ih =>
    obtain ⟨hresult, rfl⟩ := Prod.mk.inj hanswer
    exact .exchanged (Prod.ext hresult rfl) (ih fun event hmem => hquiet event (.tail _ hmem))
  | @emitted s _ event whole _ ih =>
    have hrest := ih fun event hmem => hquiet event (.tail _ hmem)
    have hevent := hquiet event (.head _)
    cases event with
    | waited | logged => exact .emitted hrest
    | asked | delivered => exact hevent.elim

theorem Parted.wrote {α : Type} {pauses : Pauses} {blocks : List (List WriteEntry)}
    {gather : List Unit → α} {s : Memory × List Delivery} {ran : Ran (Memory × List Delivery) α}
    {parts : List (Part Unit)} {whole : List Happening}
    (h : (received table retry receiver).Parted s
      (blocks.map ((received table retry receiver).writeStart pauses)) gather ran parts whole) :
    Memory.Wrote blocks.flatten False s.1 ran.store.1 ∧
      (ran.outcome.isDone = true → blocks = (parts.map fun part =>
          part.own.flatMap Happening.taken) ∧
        ran.store.1.items =
          (whole.flatMap Happening.taken).foldl (WriteEntry.apply s.1.table) s.1.items) := by
  have hfollows := h.follows.toMemory fun _ hmem => h.writeBlocks.emitted h.merges hmem
  have hleaves := hfollows.leaves table.name
  have hasked {request : Request} {result : Except Error request.Reply}
      (hmem : .exchanged request result ∈ whole) :=
    h.writeBlocks.asked h.merges hleaves hmem
  obtain ⟨htable, hitems, helsewhere⟩ := hfollows.wrote fun request result hmem => by
    obtain ⟨_, -, sent, rfl, -⟩ := hasked hmem
    exact ⟨_, sent, rfl⟩
  refine ⟨⟨htable, False.elim, fun key hkey => helsewhere key fun name entries result hmem => ?_⟩,
    fun hdone => ?_⟩
  · obtain ⟨block, hblock, sent, hrequest, -, hsuffix⟩ := hasked hmem
    cases hrequest
    exact fun entry hentry =>
      hkey entry (List.mem_flatten.mpr ⟨block, hblock, hsuffix.subset hentry⟩)
  · obtain ⟨value, hvalue⟩ := Outcome.isDone_iff.mp hdone
    obtain ⟨values, hvalues, -⟩ := Outcome.map_eq_done_iff.mp (h.outcome.symm.trans hvalue)
    have hall := Outcome.all_eq_done_iff.mp hvalues
    have hpart : ∀ part ∈ parts, part.outcome = .done () := fun part hmem => by
      obtain ⟨value, -, hvalue⟩ := List.mem_map.mp (hall ▸ List.mem_map_of_mem hmem)
      exact hvalue.symm
    obtain ⟨hblocks, -, hthrottled⟩ := h.writeBlocks.taken_of_done h.merges hleaves hpart
    exact ⟨hblocks, hitems hthrottled⟩

theorem received_writeTogether {s : Memory × List Delivery} {pauses : Pauses}
    (h : Undelayed pauses s.1) (schedule : List Nat) (entries : List WriteEntry) :
    (received table retry receiver).writeTogether pauses schedule entries s =
      (received table retry receiver).batchWrite entries s := by
  obtain ⟨answers, waits⟩ := pauses
  obtain ⟨rfl, hwaits⟩ : answers = false ∧ (waits = true → s.1.throttling = 0) := h
  refine writeTogether_of_no_wait schedule fun htrue milliseconds hmem => ?_
  obtain ⟨parts, hparted⟩ :=
    (received table retry receiver).exists_parted_batchWrite s ⟨false, waits⟩ entries
  have hfollows := hparted.follows.toMemory fun _ hmem =>
    hparted.writeBlocks.emitted hparted.merges hmem
  obtain ⟨notices, hevents⟩ := hparted.events
  rw [hevents] at hmem
  obtain hmem | hmem := List.mem_append.mp hmem
  · exact hfollows.not_waited (hwaits htrue) hparted.writeBlocks hparted.merges milliseconds hmem
  · simp at hmem

def Orders (pauses : Pauses) (m : Memory) (entries order : List WriteEntry) : Prop :=
  let blocks := batches writeBatchSize (entries.map (WriteEntry.reduce m.table))
  Merges blocks order ∧
    (Undelayed pauses m ∨ blocks.Pairwise (WriteEntry.Apart m.table) → order = blocks.flatten)

theorem exists_wrote_writeTogether (retry : RetryPolicy) (receiver : Receiver) (pauses : Pauses)
    (schedule : List Nat) (entries : List WriteEntry) {s : Memory × List Delivery}
    (htable : s.1.table = table) :
    let ran := (received table retry receiver).writeTogether pauses schedule entries s
    ∃ order, Orders pauses s.1 entries order ∧
      Memory.Wrote order (ran.outcome.isDone = true) s.1 ran.store.1 := by
  subst htable
  intro ran
  let g := received s.1.table retry receiver
  let blocks := batches writeBatchSize (entries.map (WriteEntry.reduce s.1.table))
  obtain ⟨parts, whole, h, hundelayed⟩ : ∃ parts whole,
      g.Parted s (blocks.map (g.writeStart pauses)) (fun _ => ()) ran parts whole ∧
        (Undelayed pauses s.1 → whole = (parts.map Part.own).flatten) := by
    by_cases hpauses : Undelayed pauses s.1
    · obtain ⟨parts, h⟩ := g.exists_parted_batchWrite s pauses entries
      rw [← received_writeTogether hpauses schedule entries] at h
      exact ⟨parts, _, h, fun _ => rfl⟩
    · obtain ⟨parts, whole, h⟩ := g.exists_parted_writeTogether s pauses schedule entries
      exact ⟨parts, whole, h, fun h => absurd h hpauses⟩
  obtain ⟨hwrote, hdone⟩ := h.wrote
  have hflatten (hitems : ran.outcome.isDone = true →
      ran.store.1.items = blocks.flatten.foldl (WriteEntry.apply s.1.table) s.1.items) :
      ∃ order, Orders pauses s.1 entries order ∧
        Memory.Wrote order (ran.outcome.isDone = true) s.1 ran.store.1 :=
    ⟨blocks.flatten, ⟨.flatten blocks, fun _ => rfl⟩, hwrote.table, hitems, hwrote.elsewhere⟩
  by_cases hran : ran.outcome.isDone = true
  · obtain ⟨hblocks, hitems⟩ := hdone hran
    have hmerges : Merges blocks (whole.flatMap Happening.taken) := by
      rw [hblocks]
      simpa [Function.comp_def] using h.merges.flatMap Happening.taken
    by_cases hapart : blocks.Pairwise (WriteEntry.Apart s.1.table)
    · exact hflatten fun _ => hitems.trans (WriteEntry.foldl_of_merges hmerges hapart _)
    · refine ⟨_, ⟨hmerges, fun hor => ?_⟩, hwrote.table, fun _ => hitems, fun key hkey => ?_⟩
      · rw [hundelayed (hor.resolve_right hapart), ← List.flatMap_def, List.flatMap_assoc,
          List.flatMap_def]
        exact congrArg List.flatten hblocks.symm
      · exact hwrote.elsewhere key fun entry hentry => hkey entry (hmerges.perm.mem_iff.mpr hentry)
  · exact hflatten fun h => absurd h hran

theorem writes_put (item : Item) (condition : Option String) :
    ((received table retry receiver).put item condition).Writes [.put item] := by
  unfold put
  cases hput : (received table retry receiver).putRequest item condition with
  | error error => exact fun s => .refused rfl rfl nofun
  | ok put =>
    have hitem : put.item = item := by
      obtain ⟨_, -, h⟩ := exists_of_bind_ok hput
      cases h
      rfl
    rw [Action.ofExcept_bind]
    refine Action.Writes.then_silent (fun s => ?_) _ fun _ _ => rfl
    obtain ⟨n, htable, hitems, houtcome, hstore⟩ :=
      exists_answer_submit table retry receiver (.put put) s
    have hwrote := n.wrote_put put
    rw [← hstore, hitem] at hwrote
    refine hwrote.congr htable hitems fun hdone => ?_
    obtain ⟨reply, hran⟩ := Outcome.isDone_iff.mp hdone
    exact Outcome.ofExcept_eq_done.mp (houtcome.symm.trans hran)

end Gateway

end KeyedTable
