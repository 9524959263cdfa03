import KeyedTable.Proofs.Gateway.InTurn
import KeyedTable.Proofs.Reading.Query
import KeyedTable.Proofs.Reading.Turns

namespace KeyedTable

variable {σ : Type}

def handed (events : List Event) : Nat := ((deliveries events).flatMap Delivery.items).length

@[simp] theorem handed_append (before after : List Event) :
    handed (before ++ after) = handed before + handed after := by
  simp [handed]

theorem handed_delivered (page : Delivery) (events : List Event) :
    handed (.delivered page :: events) = page.items.length + handed events := by
  have hpages : deliveries (.delivered page :: events) = page :: deliveries events := rfl
  rw [handed, hpages, List.flatMap_cons, List.length_append, handed]

/-- A page never holds more items than it was asked for. -/
def Store.KeepsLimits (store : Store σ) : Prop :=
  ∀ read s page, (store.answer (.read read) s).1 = .ok page →
    ∀ limit ∈ read.limit, page.items.length ≤ limit

theorem keepsLimits_memory : Store.memory.KeepsLimits := by
  intro read m page h limit hlimit
  have hread : (m.count (.read read)).read read = .ok page := by
    change (m.answer (.read read)).1 = .ok page at h
    rw [Memory.answer_of_ok h] at h
    exact h
  obtain ⟨test, -, hread⟩ := exists_of_bind_ok hread
  obtain ⟨items, -, hread⟩ := exists_of_bind_ok hread
  cases hread
  obtain ⟨n, hn, hle⟩ : ∃ n, m.budget read.limit = some n ∧ n ≤ limit := by
    rw [Option.mem_def.mp hlimit]
    unfold Memory.budget
    cases m.pageSize with
    | none => exact ⟨limit, rfl, Nat.le_refl limit⟩
    | some size => exact ⟨min limit size, rfl, Nat.min_le_left limit size⟩
  have hbudget : (m.count (.read read)).budget read.limit = some n := hn
  simp only [Memory.page, hbudget]
  exact (List.length_filter_le _ _).trans ((List.length_take_le _ _).trans hle)

theorem append_cons_cases {α : Type} {xs ys zs ws : List α} {a b : α}
    (h : xs ++ a :: ys = zs ++ b :: ws) :
    (∃ rest, xs = zs ++ b :: rest) ∨ (xs = zs ∧ a = b ∧ ys = ws) ∨
      ∃ rest, zs = xs ++ a :: rest ∧ ys = rest ++ b :: ws := by
  simp only [List.append_eq_append_iff, List.cons_eq_append_iff, List.cons_eq_cons] at h
  obtain ⟨c, rfl, ⟨rfl, rfl, rfl⟩ | ⟨rest, rfl, rfl⟩⟩ |
    ⟨c, rfl, ⟨rfl, rfl, rfl⟩ | ⟨rest, rfl, rfl⟩⟩ := h
  · exact .inr (.inl ⟨(List.append_nil xs).symm, rfl, rfl⟩)
  · exact .inr (.inr ⟨rest, rfl, rfl⟩)
  · exact .inr (.inl ⟨List.append_nil zs, rfl, rfl⟩)
  · exact .inl ⟨rest, rfl⟩

structure Rationed (first : Read) (left : Nat) (events : List Event) : Prop where
  asked : ∀ before request refusal after, events = before ++ .asked request refusal :: after →
    handed before < left ∧
      ∃ start, request = .read { first with start, limit := some (left - handed before) }
  stops : ∀ before page after, events = before ++ .delivered page :: after →
    left ≤ handed before + page.items.length → after = []

namespace Rationed

variable {first : Read} {left : Nat} {events rest : List Event}

theorem nothing : Rationed first left [] where
  asked before _ _ after h := by simp at h
  stops before _ after h := by simp at h

theorem submitted {g : Gateway σ} {s t : σ} {outcome : Outcome Page}
    (h : g.submit (.read first) s = ⟨outcome, t, events⟩) (hleft : 0 < left)
    (hlimit : first.limit = some left) :
    deliveries events = [] ∧ Rationed first left events := by
  have htried := h ▸ tried_submit g (.read first) s
  have hpages : deliveries events = [] := htried.deliveries_eq
  refine ⟨hpages, fun before request refusal after heq => ?_, fun before page after heq _ => ?_⟩
  · have hnone : handed before = 0 := by
      rw [heq, deliveries_append, List.append_eq_nil_iff] at hpages
      rw [handed, hpages.1]
      rfl
    have hasked : .asked request refusal ∈ events := by simp [heq]
    have hrequest : request = .read first := htried.asked hasked
    exact ⟨hnone ▸ hleft, first.start, by rw [hrequest, hnone, Nat.sub_zero, ← hlimit]⟩
  · rw [heq, deliveries_append] at hpages
    cases (List.append_eq_nil_iff.mp hpages).2

theorem append_page (h : Rationed first left events) (hpages : deliveries events = [])
    {page : Delivery} (hrest : Rationed first (left - page.items.length) rest)
    (hstops : left ≤ page.items.length → rest = []) :
    Rationed first left (events ++ .delivered page :: rest) where
  asked before request refusal after heq := by
    obtain ⟨own, hown⟩ | ⟨-, hnot, -⟩ | ⟨between, rfl, hlater⟩ := append_cons_cases heq
    · exact h.asked before request refusal own hown
    · cases hnot
    · obtain ⟨hlt, start, hrequest⟩ := hrest.asked between request refusal after hlater
      have hspent : handed (events ++ .delivered page :: between) =
          page.items.length + handed between := by
        rw [handed_append, handed_delivered, handed, hpages]
        exact Nat.zero_add _
      rw [hspent]
      exact ⟨by omega, start, by rw [hrequest, Nat.sub_sub]⟩
  stops before other after heq hle := by
    obtain ⟨own, hown⟩ | ⟨rfl, hpage, rfl⟩ | ⟨between, rfl, hlater⟩ := append_cons_cases heq
    · rw [hown, deliveries_append] at hpages
      cases (List.append_eq_nil_iff.mp hpages).2
    · cases hpage
      rw [handed, hpages] at hle
      exact hstops (by simpa using hle)
    · rw [handed_append, handed_delivered, handed, hpages] at hle
      exact hrest.stops between other after hlater (by simp at hle; omega)

end Rationed

namespace Gateway

/-- What the limit of a read says about what the read comes to. -/
structure Limited (g : Gateway σ) (first : Read) (limit : Nat) (ran : Ran σ Unit) : Prop
    extends Rationed first limit ran.events where
  reaches : limit ≤ handed ran.events → ran.outcome = .done ()
  within : g.store.KeepsLimits → handed ran.events ≤ limit
  exact : g.store.KeepsLimits → ran.outcome = .done () →
    ∀ cursor, lastCursor (deliveries ran.events) = some cursor → handed ran.events = limit

variable {g : Gateway σ}

theorem length_le_of_submit (h : g.store.KeepsLimits) {read : Read} {s t : σ} {page : Page}
    {events : List Event} (hsubmit : g.submit (.read read) s = ⟨.done page, t, events⟩) :
    ∀ limit ∈ read.limit, page.items.length ≤ limit := by
  obtain ⟨u, -, houtcome, -⟩ := (tried_submit g (.read read) s).exists_last
    (I := fun _ => True) (fun _ _ _ _ _ => trivial) trivial
  refine h read u page ?_
  rw [hsubmit] at houtcome
  cases hanswer : (g.store.answer (.read read) u).1 with
  | ok reply => rw [hanswer] at houtcome; cases houtcome; rfl
  | error error => rw [hanswer] at houtcome; cases houtcome

theorem limit_ne_zero_of_check {limit : Option Nat} (h : checkLimit limit = .ok ()) :
    limit ≠ some 0 := by
  rintro rfl
  cases h

theorem queryRead_limit {key : String} {options : QueryOptions} {first : Read}
    (h : g.queryRead key options = .ok first) : options.limit ≠ some 0 := by
  obtain ⟨_, hcheck, -⟩ := exists_of_bind_ok h
  exact limit_ne_zero_of_check hcheck

theorem handed_page {events : List Event} (hpages : deliveries events = []) (page : Delivery)
    (rest : List Event) :
    handed (events ++ .delivered page :: rest) = page.items.length + handed rest := by
  rw [handed_append, handed_delivered, handed, hpages]
  exact Nat.zero_add _

theorem charge_eq_some {left fetched : Nat} {limit : Option Nat}
    (h : charge (some left) fetched = some limit) :
    fetched < left ∧ limit = some (left - fetched) := by
  simp only [charge] at h
  split at h
  · cases h
  · cases h
    exact ⟨by omega, rfl⟩

namespace Paged

variable {rounds : Nat} {prev : Option (Option Item)} {read : Read} {s : σ} {ran : Ran σ Unit}

theorem deliveries_ne_nil (h : g.Paged rounds prev read s ran) (hdone : ran.outcome = .done ()) :
    deliveries ran.events ≠ [] := by
  cases h with
  | cutOff => cases hdone
  | failed => cases hdone
  | last => simp [deliveries]
  | more => simp [deliveries]

theorem limited (h : g.Paged rounds prev read s ran) {left : Nat} (hleft : 0 < left)
    (hlimit : read.limit = some left) : g.Limited read left ran := by
  induction h generalizing left with
  | cutOff => exact ⟨.nothing, fun hle => absurd hle (by simp [handed, deliveries]; omega),
      fun _ => Nat.zero_le _, fun _ hdone => by cases hdone⟩
  | @failed rounds prev read s error t events hsubmit =>
    obtain ⟨hpages, hfirst⟩ := Rationed.submitted hsubmit hleft hlimit
    have hnone : handed events = 0 := by rw [handed, hpages]; rfl
    refine ⟨hfirst, ?_, fun _ => hnone ▸ Nat.zero_le left, fun _ hdone => by cases hdone⟩
    intro hle
    rw [hnone] at hle
    omega
  | @last rounds prev read s page t events hsubmit hends =>
    obtain ⟨hpages, hfirst⟩ := Rationed.submitted hsubmit hleft hlimit
    have hhanded : handed (events ++ [.delivered (delivery g.table prev read page)]) =
        page.items.length := handed_page hpages _ []
    refine ⟨hfirst.append_page hpages .nothing fun _ => rfl, fun _ => rfl, ?_, ?_⟩
    · intro hkeeps
      rw [hhanded]
      exact length_le_of_submit hkeeps hsubmit left hlimit
    · intro hkeeps _ cursor hcursor
      rw [deliveries_append, hpages] at hcursor
      have hnext : page.lastKey.map (g.table.cursor read.index) = some cursor := hcursor
      have hfull : left ≤ page.items.length := by
        obtain hkey | hcharge := hends
        · rw [hkey] at hnext
          cases hnext
        · obtain ⟨n, hn, hle⟩ := exists_of_charge_none hcharge
          rw [hlimit] at hn
          cases hn
          exact hle
      rw [hhanded]
      exact Nat.le_antisymm (length_le_of_submit hkeeps hsubmit left hlimit) hfull
  | @more rounds prev read s page t events key limit ran hsubmit hkey hcharge hrest ih =>
    obtain ⟨hpages, hfirst⟩ := Rationed.submitted hsubmit hleft hlimit
    rw [hlimit] at hcharge
    obtain ⟨hlt, rfl⟩ := charge_eq_some hcharge
    have hlater := ih (Nat.sub_pos_of_lt hlt) rfl
    have hshare : Rationed read (left - page.items.length) ran.events :=
      ⟨hlater.asked, hlater.stops⟩
    have hhanded : handed (events ++ .delivered (delivery g.table prev read page) :: ran.events) =
        page.items.length + handed ran.events := handed_page hpages _ ran.events
    refine ⟨hfirst.append_page hpages hshare fun hle => absurd hlt (Nat.not_lt.mpr hle), ?_, ?_, ?_⟩
    · intro hle
      rw [hhanded] at hle
      exact hlater.reaches (by omega)
    · intro hkeeps
      have hwithin := hlater.within hkeeps
      rw [hhanded]
      omega
    · intro hkeeps hdone cursor hcursor
      have hcons : lastCursor (deliveries ran.events) = some cursor := by
        rw [deliveries_append, hpages] at hcursor
        rw [← lastCursor_cons (delivery g.table prev read page) (hrest.deliveries_ne_nil hdone)]
        exact hcursor
      have hexact := hlater.exact hkeeps hdone cursor hcons
      rw [hhanded]
      omega

end Paged

theorem scanReads_limit {segments : Nat} {options : ScanOptions}
    {start : Option (List (Option Item))} {reads : List Read}
    (h : g.scanReads segments options start = .ok reads) :
    options.limit ≠ some 0 ∧ ∀ first ∈ reads, first.limit = options.limit := by
  obtain ⟨_, -, h⟩ := exists_of_bind_ok h
  obtain ⟨_, hcheck, h⟩ := exists_of_bind_ok h
  obtain ⟨filter, -, h⟩ := exists_of_bind_ok h
  cases h
  refine ⟨limit_ne_zero_of_check hcheck, fun first hfirst => ?_⟩
  obtain ⟨_, -, rfl⟩ := List.mem_map.mp hfirst
  rfl

theorem limited_readFrom (g : Gateway σ) (prev : Option (Option Item)) {first : Read} {limit : Nat}
    (hne : limit ≠ 0) (hlimit : first.limit = some limit) (s : σ) :
    g.Limited first limit (g.readFrom prev first s) :=
  (g.paged_pages (g.store.horizon s + 1) prev first s).limited (Nat.pos_of_ne_zero hne) hlimit

theorem limited_inTurn (g : Gateway σ) (prev : Option (Option Item)) {limit : Nat} (hne : limit ≠ 0)
    {reads : List Read} (hlimit : ∀ first ∈ reads, first.limit = some limit) (s : σ) :
    List.Forall₂ (fun first ran => g.Limited first limit ran) reads
      (Action.inTurn (reads.map (g.readFrom prev)) s) := by
  induction reads generalizing s with
  | nil => exact .nil
  | cons first reads ih =>
    obtain ⟨hfirst, hothers⟩ := List.forall_mem_cons.mp hlimit
    exact .cons (g.limited_readFrom prev hne hfirst s) (ih hothers _)

end Gateway

/-- The limit of a query, and that of each segment of a scan, is kept to the item. A scan is a read
of one segment. -/
theorem limit_exact (g : Gateway σ) (s : σ) (limit : Nat) :
    (∀ key options first, options.limit = some limit → g.queryRead key options = .ok first →
      g.Limited first limit (g.query key options s)) ∧
    (∀ segments options start reads, options.limit = some limit →
      g.scanReads segments options start = .ok reads →
      let runs := Action.inTurn (reads.map (g.readFrom (some none))) s
      Ran.Totals (fun _ => ()) s runs (g.parallelScan segments options start s) ∧
        List.Forall₂ (fun first ran => g.Limited first limit ran) reads runs) ∧
    ∀ options start reads, options.limit = some limit →
      g.scanReads 1 options (start.map fun key => [some key]) = .ok reads →
      ∃ first, reads = [first] ∧ g.scan options start s = g.readFrom (some none) first s ∧
        g.Limited first limit (g.scan options start s) := by
  refine ⟨?_, ?_, ?_⟩
  · intro key options first hoptions h
    obtain ⟨_, -, hlimit⟩ := Gateway.queryRead_settings h
    have hquery : g.query key options s = g.readFrom
        (options.start.map fun start => some (g.table.cursor options.index start)) first s := by
      rw [Gateway.query, h, Action.ofExcept_bind]
    have hne : options.limit ≠ some 0 := Gateway.queryRead_limit h
    rw [hoptions] at hlimit hne
    exact hquery ▸ g.limited_readFrom _ (by simpa using hne) hlimit s
  · intro segments options start reads hoptions h
    obtain ⟨hne, hlimit⟩ := Gateway.scanReads_limit h
    rw [hoptions] at hlimit hne
    exact ⟨g.parallelScan_totals s h, g.limited_inTurn _ (by simpa using hne) hlimit s⟩
  · intro options start reads hoptions h
    obtain ⟨first, rfl, hscan⟩ := Gateway.exists_scan_eq_readFrom h
    obtain ⟨hne, hlimit⟩ := Gateway.scanReads_limit h
    rw [hoptions] at hlimit hne
    refine ⟨first, rfl, congrFun hscan s, ?_⟩
    rw [hscan]
    exact g.limited_readFrom _ (by simpa using hne) (hlimit first List.mem_cons_self) s

theorem limit_exact_of_two :
    let table : Table := ⟨"orders", ⟨"user", some "day"⟩, .empty⟩
    let item (day : String) (paid : Bool) : Item :=
      ((SortedMap.empty.insert "user" (.string "u")).insert "day" (.string day)).insert "paid"
        (.boolean paid)
    let m := Memory.new table (some 1) [item "1" false, item "2" true, item "3" true, item "4" true]
    let own := Gateway.inMemory table .standard
    let options : QueryOptions := ⟨none, some "paid = true", true, none, some 2⟩
    let script : Script :=
      [.ok ⟨none, [item "1" true, item "2" true, item "3" true], [], [], some (item "3" true)⟩]
    let other : Gateway Script := ⟨Store.script, table, .standard, fun _ s => s⟩
    (∃ first, own.queryRead "user = \"u\"" options = .ok first ∧
      own.Limited first 2 (own.query "user = \"u\"" options m)) ∧ own.store.KeepsLimits ∧
    (deliveries (own.query "user = \"u\"" options m).events).map Delivery.items =
      [[], [item "2" true], [item "3" true]] ∧
    (∃ reads, other.scanReads 1 ⟨none, none, some 2⟩ none = .ok reads ∧
      List.Forall₂ (fun first ran => other.Limited first 2 ran) reads
        (Action.inTurn (reads.map (other.readFrom (some none))) script)) ∧
    (∃ first, other.Limited first 2 (other.scan ⟨none, none, some 2⟩ none script)) ∧
    handed (other.scan ⟨none, none, some 2⟩ none script).events = 3 := by
  intro table item m own options script other
  have hkey : Condition.parse "user = \"u\"" =
      .ok (.compare ⟨"user", []⟩ .equal (.string "u")) := by
    with_unfolding_all rfl
  have hfilter : Condition.parse "paid = true" =
      .ok (.compare ⟨"paid", []⟩ .equal (.boolean true)) := by
    with_unfolding_all rfl
  have hquery := @Gateway.queryRead_eq _ own _ options _ _ hkey (.some hfilter) (by decide)
  have hscan : other.scanReads 1 ⟨none, none, some 2⟩ none =
      .ok [⟨"orders", none, .segment 0 1, none, .empty, none, some 2⟩] := by
    with_unfolding_all rfl
  obtain ⟨-, hsegments, hwhole⟩ := limit_exact other script 2
  obtain ⟨first, -, -, hlimited⟩ := hwhole _ none _ rfl hscan
  exact ⟨⟨_, hquery, (limit_exact own m 2).1 _ _ _ rfl hquery⟩, keepsLimits_memory,
    by decide +kernel, ⟨_, hscan, (hsegments _ _ _ _ rfl hscan).2⟩, ⟨first, hlimited⟩,
    by decide +kernel⟩

end KeyedTable
