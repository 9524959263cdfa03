import KeyedTable.Proofs.Memory.Order

namespace KeyedTable.Memory

variable {m : Memory} {index : Option String} {forward : Bool} {items : List Item}

theorem isBeyond_some_iff (key item : Item) :
    m.isBeyond index forward (some key) item ↔ m.table.Before index forward key item := by
  cases forward <;> simp [isBeyond, Table.Before]

theorem isBeyond_cursor (key : Item) :
    m.isBeyond index forward (some (m.table.cursor index key)) =
      m.isBeyond index forward (some key) := by
  funext item
  simp only [isBeyond, Table.readOrder_cursor]

structure Ahead (m : Memory) (index : Option String) (forward : Bool) (items : List Item)
    (start : Option Item) (rest : List Item) : Prop where
  suffix : ∃ before, items = before ++ rest
  beyond : items.filter (m.isBeyond index forward start) = rest

theorem ahead_none : m.Ahead index forward items none items :=
  ⟨⟨[], rfl⟩, List.filter_eq_self.mpr fun _ _ => rfl⟩

theorem ahead_last {before rest : List Item} {last : Item}
    (hordered : items.Pairwise (m.table.Before index forward))
    (hitems : items = before ++ last :: rest) : m.Ahead index forward items (some last) rest := by
  refine ⟨⟨before ++ [last], by simp [hitems]⟩, ?_⟩
  subst hitems
  obtain ⟨-, hrest, hcross⟩ := List.pairwise_append.mp hordered
  have hbefore : before.filter (m.isBeyond index forward (some last)) = [] := by
    refine List.filter_eq_nil_iff.mpr fun item hitem hbeyond => ?_
    have hlast := hcross item hitem last List.mem_cons_self
    exact hlast.asymm ((isBeyond_some_iff last item).mp hbeyond)
  have hlast : m.isBeyond index forward (some last) last = false :=
    Bool.eq_false_iff.mpr fun h => Table.before_irrefl forward last ((isBeyond_some_iff ..).mp h)
  have hafter : rest.filter (m.isBeyond index forward (some last)) = rest :=
    List.filter_eq_self.mpr fun item hitem =>
      (isBeyond_some_iff last item).mpr ((List.pairwise_cons.mp hrest).1 item hitem)
  rw [List.filter_append, hbefore, List.filter_cons_of_neg (by simp [hlast]), hafter]
  rfl

theorem Ahead.cursor {key : Item} {rest : List Item}
    (h : m.Ahead index forward items (some key) rest) :
    m.Ahead index forward items (some (m.table.cursor index key)) rest :=
  ⟨h.suffix, by rw [isBeyond_cursor]; exact h.beyond⟩

theorem Ahead.drop {start : Option Item} {rest : List Item} {last : Item} {n : Nat}
    (h : m.Ahead index forward items start rest)
    (hordered : items.Pairwise (m.table.Before index forward))
    (hlast : (rest.take n).getLast? = some last) :
    m.Ahead index forward items (some (m.table.cursor index last)) (rest.drop n) := by
  obtain ⟨before, hitems⟩ := h.suffix
  obtain ⟨seen, hseen⟩ := List.getLast?_eq_some_iff.mp hlast
  have hsplit : items = (before ++ seen) ++ last :: rest.drop n := by
    rw [List.append_cons, List.append_assoc before, ← hseen, List.append_assoc,
      List.take_append_drop, ← hitems]
  exact (ahead_last hordered hsplit).cursor

theorem Ahead.length_le {start : Option Item} {rest : List Item}
    (h : m.Ahead index forward items start rest) : rest.length ≤ items.length := by
  rw [← h.beyond]
  exact List.length_filter_le _ _

def kept (test : Option Condition) (item : Item) : Bool := test.all (·.holds item)

inductive Turn (m : Memory) (index : Option String) (forward : Bool) (items rest : List Item)
    (test : Option Condition) (page : Page) : Prop
  | last : page.lastKey = none → page.items = rest.filter (kept test) →
      Turn m index forward items rest test page
  | more {seen left key} : rest = seen ++ left → seen ≠ [] → left ≠ [] →
      page.items = seen.filter (kept test) → page.lastKey = some key →
      m.Ahead index forward items (some key) left → Turn m index forward items rest test page

theorem budget_ne_zero {limit : Option Nat} (hlimit : limit ≠ some 0)
    (hpage : m.pageSize ≠ some 0) : m.budget limit ≠ some 0 := by
  unfold budget
  cases limit with
  | none => cases hsize : m.pageSize <;> simp_all
  | some a =>
    cases hsize : m.pageSize with
    | none => simpa using hlimit
    | some b =>
      have ha : a ≠ 0 := fun h => hlimit (congrArg some h)
      have hb : b ≠ 0 := fun h => hpage (hsize.trans (congrArg some h))
      simp only [ne_eq, Option.some.injEq]
      omega

section

variable {start : Option Item} {rest : List Item} {limit : Option Nat} {n : Nat}

theorem items_page (h : m.Ahead index forward items start rest) (hn : m.budget limit = some n)
    (test : Option Condition) :
    (m.page items index forward start limit test).items = (rest.take n).filter (kept test) := by
  simp only [page, hn, h.beyond]
  rfl

theorem lastKey_page (h : m.Ahead index forward items start rest) (hn : m.budget limit = some n)
    (test : Option Condition) :
    (m.page items index forward start limit test).lastKey =
      if n < rest.length then (rest.take n).getLast?.map (m.table.cursor index) else none := by
  have hshorter : (rest.take n).length < rest.length ↔ n < rest.length := by
    rw [List.length_take]
    omega
  simp only [page, hn, h.beyond, hshorter]

theorem lastKey_page_eq_none_iff (h : m.Ahead index forward items start rest)
    (hn : m.budget limit = some n) (hpos : 0 < n) (test : Option Condition) :
    (m.page items index forward start limit test).lastKey = none ↔ rest.length ≤ n := by
  rw [lastKey_page h hn]
  split
  next hmore =>
    have hrest : rest ≠ [] := List.ne_nil_of_length_pos (Nat.zero_lt_of_lt hmore)
    have hseen : rest.take n ≠ [] := fun hnil =>
      (List.take_eq_nil_iff.mp hnil).elim (Nat.ne_of_gt hpos) hrest
    rw [Option.map_eq_none_iff, List.getLast?_eq_none_iff]
    exact iff_of_false hseen (Nat.not_le.mpr hmore)
  next hall => exact iff_of_true rfl (Nat.not_lt.mp hall)

theorem ahead_of_lastKey {test : Option Condition} {key : Item}
    (hordered : items.Pairwise (m.table.Before index forward))
    (h : m.Ahead index forward items start rest) (hn : m.budget limit = some n)
    (hkey : (m.page items index forward start limit test).lastKey = some key) :
    rest.take n ≠ [] ∧ rest.drop n ≠ [] ∧
      m.Ahead index forward items (some key) (rest.drop n) := by
  rw [lastKey_page h hn] at hkey
  split at hkey
  next hmore =>
    obtain ⟨last, hlast, rfl⟩ := Option.map_eq_some_iff.mp hkey
    refine ⟨fun hnil => ?_, fun hnil => ?_, h.drop hordered hlast⟩
    · rw [hnil] at hlast
      cases hlast
    · exact Nat.not_le.mpr hmore (List.drop_eq_nil_iff.mp hnil)
  next => cases hkey

theorem turn_page (hordered : items.Pairwise (m.table.Before index forward))
    (h : m.Ahead index forward items start rest) (hlimit : limit ≠ some 0)
    (hpage : m.pageSize ≠ some 0) (test : Option Condition) :
    Turn m index forward items rest test (m.page items index forward start limit test) := by
  have hbudget := budget_ne_zero hlimit hpage
  cases hn : m.budget limit with
  | none => exact .last (by simp [page, hn]) (by simp only [page, hn, h.beyond]; rfl)
  | some n =>
    have hitems := items_page h hn test
    cases hkey : (m.page items index forward start limit test).lastKey with
    | none =>
      have hpos : 0 < n := Nat.pos_of_ne_zero fun h => hbudget (hn.trans (congrArg some h))
      have hall := (lastKey_page_eq_none_iff h hn hpos test).mp hkey
      rw [List.take_of_length_le hall] at hitems
      exact .last hkey hitems
    | some key =>
      obtain ⟨hseen, hleft, hahead⟩ := ahead_of_lastKey hordered h hn hkey
      exact .more (List.take_append_drop n rest).symm hseen hleft hitems hkey hahead

end

end KeyedTable.Memory
