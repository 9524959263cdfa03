import Mathlib.Data.List.Nodup
import KeyedTable.Proofs.Reading.Call

namespace KeyedTable

variable {σ : Type}

def readsOf (number : Nat) (events : List Event) : List Read :=
  events.filterMap fun
    | .asked (.read read) _ => if read.scope.segmentNumber = number then some read else none
    | _ => none

@[simp] theorem readsOf_append (number : Nat) (before after : List Event) :
    readsOf number (before ++ after) = readsOf number before ++ readsOf number after :=
  List.filterMap_append

theorem readsOf_logged (number : Nat) (notices : List Notice) :
    readsOf number (notices.map .logged) = [] := by
  induction notices with
  | nil => rfl
  | cons notice notices ih => exact ih

theorem readsOf_map_event (number : Nat) (own : List Happening) :
    readsOf number (own.map Happening.event) =
      own.flatMap fun happening => readsOf number [happening.event] := by
  induction own with
  | nil => rfl
  | cons happening own ih =>
    rw [List.map_cons, List.flatMap_cons, ← ih, ← readsOf_append, List.singleton_append]

def Untouched (number : Nat) (events : List Event) : Prop :=
  readsOf number events = [] ∧ pagesOf number events = []

def Projected (table : Table) (index : Option String) (events : List Event) : Prop :=
  ∀ page ∈ deliveries events, ∀ key ∈ page.next, table.cursor index key = key

namespace Gateway.PageByPage

variable {g : Gateway σ} {rounds : Nat} {prev : Option (Option Item)} {read : Read}
  {own : List Happening} {outcome : Outcome Unit}

theorem readsOf_eq_nil (h : g.PageByPage rounds prev read own outcome) {number : Nat}
    (hnumber : read.scope.segmentNumber ≠ number) :
    readsOf number (own.map Happening.event) = [] := by
  rw [readsOf_map_event, List.flatMap_eq_nil_iff]
  intro happening hmem
  cases happening with
  | exchanged request result =>
    obtain ⟨other, rfl, hscope⟩ := h.asked hmem
    have hother : other.scope.segmentNumber ≠ number := hscope ▸ hnumber
    simp [readsOf, Happening.event, hother]
  | emitted event =>
    obtain hquiet | ⟨page, rfl⟩ := h.emitted hmem
    · cases event with
      | asked | delivered => exact hquiet.elim
      | logged | waited => rfl
    · rfl

theorem head?_readsOf (h : g.PageByPage (rounds + 1) prev read own outcome) :
    (readsOf read.scope.segmentNumber (own.map Happening.event)).head? = some read := by
  obtain ⟨result, rest, rfl⟩ := h.exists_cons
  simp [readsOf, Happening.event]

theorem projected (h : g.PageByPage rounds prev read own outcome) :
    ∀ page ∈ deliveries (own.map Happening.event), ∀ key ∈ page.next,
      g.table.cursor read.index key = key := by
  refine h.forall_delivered fun prev other page _ hindex key hkey => ?_
  obtain ⟨last, -, rfl⟩ := Option.map_eq_some_iff.mp hkey
  rw [← hindex]
  exact Table.cursor_cursor ..

end Gateway.PageByPage

namespace Gateway.Parted

variable {α : Type} {g : Gateway σ} {s : σ} {pauses : Pauses} {reads : List Read}
  {gather : List Unit → α} {ran : Ran σ α} {parts : List (Part Unit)} {whole : List Happening}

theorem readsOf (h : g.Parted s (reads.map (g.readStart pauses)) gather ran parts whole)
    (number : Nat) :
    Merges (parts.map fun part => readsOf number (part.own.map Happening.event))
      (readsOf number ran.events) := by
  obtain ⟨notices, hevents⟩ := h.events
  rw [hevents, readsOf_append, readsOf_logged, List.append_nil]
  simpa [readsOf_map_event, Function.comp_def] using
    h.merges.flatMap fun happening => KeyedTable.readsOf number [happening.event]

theorem head?_readsOf (h : g.Parted s (reads.map (g.readStart pauses)) gather ran parts whole)
    (hdistinct : (reads.map fun read => read.scope.segmentNumber).Nodup) (number : Nat) :
    (KeyedTable.readsOf number ran.events).head? =
      reads.find? (·.scope.segmentNumber == number) := by
  have hmerges := h.readsOf number
  have hnone {reads : List Read} {parts : List (Part Unit)}
      (hpages : List.Forall₂ (fun read part => ∃ u, g.Begun s whole u part.own ∧
        g.PageByPage (g.store.horizon u + 1) (some none) read part.own part.outcome) reads parts)
      (hothers : ∀ read ∈ reads, read.scope.segmentNumber ≠ number) :
      ∀ own ∈ parts.map fun part => KeyedTable.readsOf number (part.own.map Happening.event),
        own = [] := by
    refine List.forall_mem_map.mpr fun part hpart => ?_
    obtain ⟨read, hread, u, -, hpages⟩ := exists_of_forall₂_right hpages hpart
    exact hpages.readsOf_eq_nil (hothers read hread)
  cases hfind : reads.find? (·.scope.segmentNumber == number) with
  | none =>
    have hothers : ∀ read ∈ reads, read.scope.segmentNumber ≠ number := by
      simpa using List.find?_eq_none.mp hfind
    have hperm := hmerges.perm
    rw [List.flatten_eq_nil_iff.mpr (hnone h.pageByPage hothers)] at hperm
    rw [hperm.eq_nil]
    rfl
  | some read =>
    have hnumber : read.scope.segmentNumber = number := by simpa using List.find?_some hfind
    obtain ⟨before, after, rfl⟩ := List.append_of_mem (List.mem_of_find?_eq_some hfind)
    have hothers := ne_of_nodup_middle hdistinct
    rw [hnumber] at hothers
    obtain ⟨first, part, last, rfl, hfirst, ⟨u, -, hpages⟩, hlast⟩ :=
      forall₂_middle_iff.mp h.pageByPage
    rw [List.map_append, List.map_cons] at hmerges
    have hbefore := hnone hfirst fun other hother => hothers other (.inl hother)
    have hafter := hnone hlast fun other hother => hothers other (.inr hother)
    rw [hmerges.eq_of_others_nil hbefore hafter, ← hnumber]
    exact hpages.head?_readsOf

end Gateway.Parted

namespace Gateway

variable {g : Gateway σ} {s : σ} {number : Nat} {reads : List Read}
  {segments : Nat} {options : ScanOptions} {start : Option (List (Option Item))}

theorem mem_segmentStarts_of_find? {read : Read}
    (hreads : g.scanReads segments options start = .ok reads)
    (h : reads.find? (·.scope.segmentNumber == number) = some read) :
    (number, read.start) ∈ segmentStarts segments start := by
  have hmem : (read.scope, read.start) ∈ reads.map fun read => (read.scope, read.start) :=
    List.mem_map_of_mem (List.mem_of_find?_eq_some h)
  rw [scanReads_starts hreads] at hmem
  obtain ⟨first, hfirst, heq⟩ := List.mem_map.mp hmem
  obtain ⟨hscope, hstart⟩ := Prod.mk.inj heq
  have hnumber := List.find?_some h
  rw [← hscope] at hnumber
  rw [← hstart, ← beq_iff_eq.mp hnumber]
  exact hfirst

theorem exists_find?_of_mem {first : Option Item}
    (hreads : g.scanReads segments options start = .ok reads)
    (h : (number, first) ∈ segmentStarts segments start) :
    ∃ read, reads.find? (·.scope.segmentNumber == number) = some read ∧ read.start = first := by
  have hmem : (Scope.segment number segments, first) ∈
      reads.map fun read => (read.scope, read.start) := by
    rw [scanReads_starts hreads]
    exact List.mem_map.mpr ⟨_, h, rfl⟩
  obtain ⟨read, hread, heq⟩ := List.mem_map.mp hmem
  obtain ⟨hscope, -⟩ := Prod.mk.inj heq
  have hfound : (reads.find? (·.scope.segmentNumber == number)).isSome :=
    List.find?_isSome.mpr ⟨read, hread, by rw [hscope]; exact beq_self_eq_true number⟩
  obtain ⟨found, hfind⟩ := Option.isSome_iff_exists.mp hfound
  have hunique := List.inj_on_of_nodup_map (nodup_segmentStarts segments start)
    (mem_segmentStarts_of_find? hreads hfind) h rfl
  exact ⟨found, hfind, (Prod.mk.inj hunique).2⟩

theorem scanReads_index (hreads : g.scanReads segments options start = .ok reads) :
    ∀ read ∈ reads, read.index = options.index := by
  obtain ⟨_, -, hreads⟩ := exists_of_bind_ok hreads
  obtain ⟨_, -, hreads⟩ := exists_of_bind_ok hreads
  obtain ⟨filter, -, hreads⟩ := exists_of_bind_ok hreads
  cases hreads
  intro read hread
  obtain ⟨first, -, rfl⟩ := List.mem_map.mp hread
  rfl

variable {pauses : Pauses} {schedule : List Nat}

theorem head?_readsOf_scanTogether (hreads : g.scanReads segments options start = .ok reads)
    (s : σ) (number : Nat) :
    (readsOf number (g.scanTogether pauses schedule segments options start s).events).head? =
      reads.find? (·.scope.segmentNumber == number) := by
  obtain ⟨parts, whole, h⟩ := g.exists_parted_scanTogether s pauses schedule hreads
  exact h.head?_readsOf (nodup_segmentNumbers hreads) number

theorem begins_scanTogether (hreads : g.scanReads segments options start = .ok reads) (s : σ)
    (number : Nat) (first : Option Item) :
    (readsOf number (g.scanTogether pauses schedule segments options start s).events).head?.map
        Read.start = some first ↔ (number, first) ∈ segmentStarts segments start := by
  rw [head?_readsOf_scanTogether hreads, Option.map_eq_some_iff]
  constructor
  · rintro ⟨read, hfind, rfl⟩
    exact mem_segmentStarts_of_find? hreads hfind
  · exact exists_find?_of_mem hreads

theorem segment_scanTogether (hreads : g.scanReads segments options start = .ok reads) (s : σ) :
    ∀ page ∈ deliveries (g.scanTogether pauses schedule segments options start s).events,
      ∃ read ∈ reads, page.segment = read.scope.segmentNumber := by
  obtain ⟨parts, whole, h⟩ := g.exists_parted_scanTogether s pauses schedule hreads
  exact h.segment

theorem untouched_scanTogether (hreads : g.scanReads segments options start = .ok reads) (s : σ)
    (h : readsOf number (g.scanTogether pauses schedule segments options start s).events = []) :
    Untouched number (g.scanTogether pauses schedule segments options start s).events := by
  have hnone : (readsOf number
      (g.scanTogether pauses schedule segments options start s).events).head? = _ :=
    head?_readsOf_scanTogether hreads s number
  rw [h, List.head?_nil] at hnone
  refine ⟨h, pagesOf_eq_nil fun page hpage heq => ?_⟩
  obtain ⟨read, hread, hsegment⟩ := segment_scanTogether hreads s page hpage
  have hother := List.find?_eq_none.mp hnone.symm read hread
  simp [← hsegment, heq] at hother

theorem lt_of_pagesOf (hreads : g.scanReads segments options start = .ok reads) (s : σ)
    (h : pagesOf number (g.scanTogether pauses schedule segments options start s).events ≠ []) :
    number < segments := by
  obtain ⟨page, hpage⟩ := List.exists_mem_of_ne_nil _ h
  obtain ⟨hpage, hnumber⟩ := List.mem_filter.mp hpage
  obtain ⟨read, hread, hsegment⟩ := segment_scanTogether hreads s page hpage
  obtain ⟨own, hown, hscope⟩ := scanReads_scope hreads read hread
  obtain rfl : own = number := by
    rw [← beq_iff_eq.mp hnumber, hsegment, hscope]
    rfl
  exact hown

theorem projected_scanTogether (hreads : g.scanReads segments options start = .ok reads) (s : σ) :
    Projected g.table options.index
      (g.scanTogether pauses schedule segments options start s).events := by
  obtain ⟨parts, whole, h⟩ := g.exists_parted_scanTogether s pauses schedule hreads
  intro page hpage
  obtain ⟨read, hread, rounds, own, outcome, hpages, -, hpage⟩ := h.exists_of_delivered hpage
  exact scanReads_index hreads read hread ▸ hpages.projected page hpage

end Gateway

end KeyedTable
