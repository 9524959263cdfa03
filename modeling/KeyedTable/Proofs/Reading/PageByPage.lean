import KeyedTable.Proofs.Gateway.Attempted
import KeyedTable.Proofs.Reading.Limit

namespace KeyedTable

variable {σ : Type}

/-- No more than so many pages. -/
inductive Gateway.PageByPage (g : Gateway σ) :
    (rounds : Nat) → (prev : Option (Option Item)) → Read → List Happening → Outcome Unit → Prop
  | cutOff {prev read} : PageByPage g 0 prev read [] .unfinished
  | refused {rounds prev read own error} :
      Attempted g.retry (.read read) g.retry.maxRetries 0 own (.error error) →
      PageByPage g (rounds + 1) prev read own (.failed error)
  | last {rounds prev read own} {page : Page} :
      Attempted g.retry (.read read) g.retry.maxRetries 0 own (.ok page) →
      (page.lastKey = none ∨ charge read.limit page.items.length = none) →
      PageByPage g (rounds + 1) prev read
        (own ++ [.emitted (.delivered (delivery g.table prev read page))]) (.done ())
  | more {rounds prev read own key limit rest outcome} {page : Page} :
      Attempted g.retry (.read read) g.retry.maxRetries 0 own (.ok page) →
      page.lastKey = some key → charge read.limit page.items.length = some limit →
      PageByPage g rounds (some (delivery g.table prev read page).prev)
        { read with start := some key, limit } rest outcome →
      PageByPage g (rounds + 1) prev read
        (own ++ .emitted (.delivered (delivery g.table prev read page)) :: rest) outcome

theorem deliveries_cons (page : Delivery) (events : List Event) :
    deliveries (.delivered page :: events) = page :: deliveries events := rfl

theorem exists_of_charge_some {limit : Option Nat} {fetched n : Nat}
    (h : charge limit fetched = some (some n)) : ∃ whole ∈ limit, whole = fetched + n := by
  cases limit with
  | none => cases h
  | some whole =>
    obtain ⟨hless, hn⟩ := Gateway.charge_eq_some h
    refine ⟨whole, rfl, ?_⟩
    cases hn
    omega

def Finished (limit : Option Nat) (outcome : Outcome Unit) (pages : List Delivery) : Prop :=
  outcome = .done () → ∃ page, pages.getLast? = some page ∧
    (page.next = none ∨ ∃ n ∈ limit, n ≤ (pages.flatMap Delivery.items).length)

namespace Gateway.PageByPage

variable {g : Gateway σ} {pauses : Pauses} {rounds : Nat} {prev : Option (Option Item)}
  {read : Read} {own : List Happening} {outcome : Outcome Unit}

theorem of_goes (h : (g.reading pauses rounds prev read).Goes own outcome) :
    g.PageByPage rounds prev read own outcome := by
  induction rounds generalizing prev read own with
  | zero =>
    cases h
    exact .cutOff
  | succ rounds ih =>
    obtain ⟨page, first, rest, rfl, hfirst, hrest⟩ | ⟨error, rfl, hfailed⟩ := h.of_submit
    · cases hrest with
      | emitted hrest =>
        split at hrest
        next key limit hkey hcharge => exact .more hfirst hkey hcharge (ih hrest)
        next hends =>
          cases hrest
          refine .last hfirst ?_
          cases hkey : page.lastKey with
          | none => exact .inl rfl
          | some key =>
            cases hcharge : charge read.limit page.items.length with
            | none => exact .inr rfl
            | some limit => exact absurd hcharge (hends key limit hkey)
    · exact .refused hfailed

theorem exists_cons (h : g.PageByPage (rounds + 1) prev read own outcome) :
    ∃ result rest, own = .exchanged (.read read) result :: rest := by
  cases h with
  | refused hattempted => exact hattempted.exists_cons
  | last hattempted =>
    obtain ⟨result, rest, rfl⟩ := hattempted.exists_cons
    exact ⟨result, _, rfl⟩
  | more hattempted =>
    obtain ⟨result, rest, rfl⟩ := hattempted.exists_cons
    exact ⟨result, _, rfl⟩

theorem asked (h : g.PageByPage rounds prev read own outcome) {request : Request}
    {result : Except Error request.Reply} (hmem : .exchanged request result ∈ own) :
    ∃ other : Read, request = .read other ∧ other.scope = read.scope := by
  induction h with
  | cutOff => cases hmem
  | refused hattempted => exact ⟨_, hattempted.asked hmem, rfl⟩
  | last hattempted =>
    obtain hmem | hmem := List.mem_append.mp hmem
    · exact ⟨_, hattempted.asked hmem, rfl⟩
    · cases List.mem_singleton.mp hmem
  | more hattempted _ _ _ ih =>
    obtain hmem | hmem := List.mem_append.mp hmem
    · exact ⟨_, hattempted.asked hmem, rfl⟩
    · cases hmem with
      | tail _ hmem => exact ih hmem

theorem emitted (h : g.PageByPage rounds prev read own outcome) {event : Event}
    (hmem : .emitted event ∈ own) : event.IsQuiet ∨ ∃ page, event = .delivered page := by
  induction h with
  | cutOff => cases hmem
  | refused hattempted => exact .inl (hattempted.emitted hmem)
  | last hattempted =>
    obtain hmem | hmem := List.mem_append.mp hmem
    · exact .inl (hattempted.emitted hmem)
    · cases List.mem_singleton.mp hmem
      exact .inr ⟨_, rfl⟩
  | more hattempted _ _ _ ih =>
    obtain hmem | hmem := List.mem_append.mp hmem
    · exact .inl (hattempted.emitted hmem)
    · cases hmem with
      | head => exact .inr ⟨_, rfl⟩
      | tail _ hmem => exact ih hmem

theorem ne_unfinished (left : Read → Nat) (h : g.PageByPage rounds prev read own outcome)
    (hpage : ∀ read (page : Page), .exchanged (.read read) (.ok page) ∈ own →
      ∀ key limit, page.lastKey = some key →
        left { read with start := some key, limit } < left read)
    (hrounds : left read < rounds) : outcome ≠ .unfinished := by
  induction h with
  | cutOff => exact absurd hrounds (Nat.not_lt_zero _)
  | refused | last => nofun
  | @more _ _ read own key limit rest _ page hattempted hkey _ _ ih =>
    have hless := hpage read page (List.mem_append_left _ hattempted.last_mem) key limit hkey
    exact ih (fun read page hmem => hpage read page
      (List.mem_append_right own (.tail _ hmem))) (by omega)

theorem forall_delivered (h : g.PageByPage rounds prev read own outcome) {P : Delivery → Prop}
    (hpage : ∀ prev (other : Read) (page : Page), other.scope = read.scope →
      other.index = read.index → P (delivery g.table prev other page)) :
    ∀ page ∈ deliveries (own.map Happening.event), P page := by
  induction h with
  | cutOff => exact fun _ hmem => absurd hmem List.not_mem_nil
  | refused hattempted => simp [hattempted.deliveries_eq]
  | last hattempted =>
    rw [List.map_append, deliveries_append, hattempted.deliveries_eq, List.nil_append]
    exact List.forall_mem_singleton.mpr (hpage _ _ _ rfl rfl)
  | more hattempted _ _ _ ih =>
    rw [List.map_append, deliveries_append, hattempted.deliveries_eq, List.nil_append,
      List.map_cons, Happening.event, deliveries_cons]
    exact List.forall_mem_cons.mpr ⟨hpage _ _ _ rfl rfl, ih hpage⟩

theorem segment (h : g.PageByPage rounds prev read own outcome) :
    ∀ page ∈ deliveries (own.map Happening.event), page.segment = read.scope.segmentNumber :=
  h.forall_delivered fun _ _ _ hscope _ => congrArg Scope.segmentNumber hscope

theorem finished (h : g.PageByPage rounds prev read own outcome) :
    Finished read.limit outcome (deliveries (own.map Happening.event)) := by
  induction h with
  | cutOff | refused => exact nofun
  | @last _ prev read own page hattempted hends =>
    intro _
    rw [List.map_append, deliveries_append, hattempted.deliveries_eq, List.nil_append]
    refine ⟨delivery g.table prev read page, rfl, hends.imp (fun hkey => ?_) fun hcharge => ?_⟩
    · simp only [delivery, hkey, Option.map_none]
    · obtain ⟨n, hn, hle⟩ := exists_of_charge_none hcharge
      exact ⟨n, hn, by simpa [deliveries, Happening.event, delivery] using hle⟩
  | @more _ prev read own key limit rest outcome page hattempted hkey hcharge _ ih =>
    intro hdone
    obtain ⟨last, hlast, hends⟩ := ih hdone
    rw [List.map_append, deliveries_append, hattempted.deliveries_eq, List.nil_append,
      List.map_cons, Happening.event, deliveries_cons]
    refine ⟨last, by rw [List.getLast?_cons, hlast]; rfl, hends.imp_right ?_⟩
    rintro ⟨n, rfl, hle⟩
    obtain ⟨whole, hwhole, hless⟩ := exists_of_charge_some hcharge
    refine ⟨whole, hwhole, ?_⟩
    simp only [List.flatMap_cons, List.length_append, delivery]
    omega

end Gateway.PageByPage

section Keeps

variable {g : Gateway σ} {s t : σ} {whole : List Happening} {I : σ → Prop}

theorem Gateway.Follows.keeps_reads (h : g.Follows s whole t)
    (hasked : ∀ request result, .exchanged request result ∈ whole → ∃ read, request = .read read)
    (hread : ∀ read u, I u → I (g.store.answer (.read read) u).2)
    (hvisit : ∀ page u, I u → I (g.visit page u)) (hs : I s) :
    I t ∧ ∀ read page, .exchanged (.read read) (.ok page) ∈ whole →
      ∃ u, I u ∧ (g.store.answer (.read read) u).1 = .ok page := by
  obtain ⟨hlast, hanswered⟩ := h.keeps
    (fun request result hmem u hu => by
      obtain ⟨read, rfl⟩ := hasked request result hmem
      exact hread read u hu)
    (fun event _ u hu => by
      cases event with
      | delivered page => exact hvisit page u hu
      | _ => exact hu) hs
  exact ⟨hlast, fun read page hmem => hanswered (.read read) (.ok page) hmem⟩

theorem Gateway.Reached.keeps_reads (h : g.Reached s whole t)
    (hasked : ∀ request result, .exchanged request result ∈ whole → ∃ read, request = .read read)
    (hread : ∀ read u, I u → I (g.store.answer (.read read) u).2)
    (hvisit : ∀ page u, I u → I (g.visit page u)) (hs : I s) : I t := by
  obtain ⟨before, after, rfl, hfollows⟩ := h
  exact (hfollows.keeps_reads (fun request result hmem =>
    hasked request result (List.mem_append_left after hmem)) hread hvisit hs).1

end Keeps

theorem Gateway.exists_pageByPage (g : Gateway σ) (rounds : Nat) (prev : Option (Option Item))
    (read : Read) (s : σ) :
    ∃ own outcome t, g.pages rounds prev read s = ⟨outcome, t, own.map Happening.event⟩ ∧
      g.PageByPage rounds prev read own outcome ∧ g.Follows s own t := by
  obtain ⟨part, t, hran, hpart, hfollows⟩ :=
    g.exists_goes (g.reading ⟨false, false⟩ rounds prev read) s
  rw [carryOut_reading] at hran
  exact ⟨part.own, part.outcome, t, hran, .of_goes hpart, hfollows⟩

namespace Gateway.Parted

variable {α : Type} {g : Gateway σ} {s : σ} {pauses : Pauses} {reads : List Read}
  {gather : List Unit → α} {ran : Ran σ α} {parts : List (Part Unit)} {whole : List Happening}

theorem pageByPage (h : g.Parted s (reads.map (g.readStart pauses)) gather ran parts whole) :
    List.Forall₂ (fun read part => ∃ u, g.Begun s whole u part.own ∧
      g.PageByPage (g.store.horizon u + 1) (some none) read part.own part.outcome) reads parts :=
  (List.forall₂_map_left_iff.mp h.starts).imp fun _ _ ⟨u, hu, hpart⟩ => ⟨u, hu, .of_goes hpart⟩

theorem exists_of_mem (h : g.Parted s (reads.map (g.readStart pauses)) gather ran parts whole)
    {happening : Happening} (hmem : happening ∈ whole) :
    ∃ read ∈ reads, ∃ rounds own outcome,
      g.PageByPage rounds (some none) read own outcome ∧ happening ∈ own := by
  obtain ⟨_, hown, hmem⟩ := h.merges.mem_iff.mp hmem
  obtain ⟨part, hpart, rfl⟩ := List.mem_map.mp hown
  obtain ⟨read, hread, u, -, hpages⟩ := exists_of_forall₂_right h.pageByPage hpart
  exact ⟨read, hread, _, _, _, hpages, hmem⟩

theorem exists_of_delivered
    (h : g.Parted s (reads.map (g.readStart pauses)) gather ran parts whole) {page : Delivery}
    (hmem : page ∈ deliveries ran.events) :
    ∃ read ∈ reads, ∃ rounds own outcome, g.PageByPage rounds (some none) read own outcome ∧
      own.Sublist whole ∧ page ∈ deliveries (own.map Happening.event) := by
  obtain ⟨_, hown, hmem⟩ := h.pages.mem_iff.mp hmem
  obtain ⟨part, hpart, rfl⟩ := List.mem_map.mp hown
  obtain ⟨read, hread, u, -, hpages⟩ := exists_of_forall₂_right h.pageByPage hpart
  exact ⟨read, hread, _, _, _, hpages, h.merges.sublist _ (List.mem_map_of_mem hpart), hmem⟩

theorem asked_read (h : g.Parted s (reads.map (g.readStart pauses)) gather ran parts whole)
    {request : Request} {result : Except Error request.Reply}
    (hmem : .exchanged request result ∈ whole) : ∃ read, request = .read read := by
  obtain ⟨read, -, rounds, own, outcome, hpages, hmem⟩ := h.exists_of_mem hmem
  obtain ⟨other, hrequest, -⟩ := hpages.asked hmem
  exact ⟨other, hrequest⟩

theorem not_emitted_asked
    (h : g.Parted s (reads.map (g.readStart pauses)) gather ran parts whole) {request : Request}
    {refusal : Option Error} : .emitted (.asked request refusal) ∉ whole := by
  intro hmem
  obtain ⟨read, -, rounds, own, outcome, hpages, hmem⟩ := h.exists_of_mem hmem
  obtain hquiet | ⟨page, hpage⟩ := hpages.emitted hmem
  · exact hquiet
  · cases hpage

theorem segment (h : g.Parted s (reads.map (g.readStart pauses)) gather ran parts whole) :
    ∀ page ∈ deliveries ran.events, ∃ read ∈ reads, page.segment = read.scope.segmentNumber := by
  intro page hpage
  obtain ⟨read, hread, rounds, own, outcome, hpages, -, hpage⟩ := h.exists_of_delivered hpage
  exact ⟨read, hread, hpages.segment page hpage⟩

theorem exists_segment {before after : List Read} {read : Read}
    (h : g.Parted s ((before ++ read :: after).map (g.readStart pauses)) gather ran parts whole)
    (hothers : ∀ other, other ∈ before ∨ other ∈ after →
      other.scope.segmentNumber ≠ read.scope.segmentNumber) :
    ∃ part ∈ parts, ∃ rounds, g.PageByPage rounds (some none) read part.own part.outcome ∧
      pagesOf read.scope.segmentNumber ran.events =
        deliveries (part.own.map Happening.event) := by
  obtain ⟨first, part, last, rfl, hfirst, ⟨u, -, hpages⟩, hlast⟩ :=
    forall₂_middle_iff.mp h.pageByPage
  have hforeign : ∀ other ∈ first ++ last,
      (deliveries (other.own.map Happening.event)).filter
        (fun page => page.segment = read.scope.segmentNumber) = [] := by
    intro other hother
    obtain ⟨foreign, hmem, v, -, hforeign⟩ : ∃ foreign, (foreign ∈ before ∨ foreign ∈ after) ∧
        ∃ v, g.Begun s whole v other.own ∧
          g.PageByPage (g.store.horizon v + 1) (some none) foreign other.own other.outcome := by
      obtain hother | hother := List.mem_append.mp hother
      · obtain ⟨foreign, hmem, hpages⟩ := exists_of_forall₂_right hfirst hother
        exact ⟨foreign, .inl hmem, hpages⟩
      · obtain ⟨foreign, hmem, hpages⟩ := exists_of_forall₂_right hlast hother
        exact ⟨foreign, .inr hmem, hpages⟩
    refine List.filter_eq_nil_iff.mpr fun page hpage => ?_
    simpa [hforeign.segment page hpage] using hothers foreign hmem
  have hmerges := h.pages.filter fun page => page.segment = read.scope.segmentNumber
  simp only [List.map_append, List.map_cons] at hmerges
  refine ⟨part, List.mem_append_right _ List.mem_cons_self, _, hpages, ?_⟩
  have hown := hmerges.eq_of_others_nil
    (List.forall_mem_map.mpr (List.forall_mem_map.mpr fun other hother =>
      hforeign other (List.mem_append_left _ hother)))
    (List.forall_mem_map.mpr (List.forall_mem_map.mpr fun other hother =>
      hforeign other (List.mem_append_right _ hother)))
  refine hown.trans (List.filter_eq_self.mpr fun page hpage => ?_)
  simpa using hpages.segment page hpage

end Gateway.Parted

end KeyedTable
