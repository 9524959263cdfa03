import KeyedTable.Proofs.Reading.Leg

namespace KeyedTable

namespace Memory

variable {m : Memory} {index : Option String} {forward : Bool} {items rest : List Item}
  {start : Option Item} {key : Item} {first next whole : Option Nat} {a b : Nat}

theorem items_page_append (h : m.Ahead index forward items start rest)
    (hnext : m.Ahead index forward items (some key) (rest.drop a)) (ha : m.budget first = some a)
    (hb : m.budget next = some b) (hsum : m.budget whole = some (a + b))
    (test : Option Condition) :
    (m.page items index forward start first test).items ++
        (m.page items index forward (some key) next test).items =
      (m.page items index forward start whole test).items := by
  rw [items_page h ha, items_page hnext hb, items_page h hsum, ← List.filter_append, List.take_add]

theorem lastKey_page_append (h : m.Ahead index forward items start rest)
    (hnext : m.Ahead index forward items (some key) (rest.drop a)) (hleft : rest.drop a ≠ [])
    (hb : m.budget next = some b) (hpos : 0 < b) (hsum : m.budget whole = some (a + b))
    (test : Option Condition) :
    (m.page items index forward (some key) next test).lastKey =
      (m.page items index forward start whole test).lastKey := by
  have hmore : b < (rest.drop a).length ↔ a + b < rest.length := by
    rw [List.length_drop]
    omega
  -- The second page looks at an item, so the last one that both look at is its own.
  have hseen : (rest.drop a).take b ≠ [] := fun hnil =>
    (List.take_eq_nil_iff.mp hnil).elim (Nat.ne_of_gt hpos) hleft
  have hlast : (rest.take (a + b)).getLast? = ((rest.drop a).take b).getLast? := by
    rw [List.take_add, List.getLast?_append, List.getLast?_eq_some_getLast hseen, Option.some_or]
  simp only [lastKey_page hnext hb, lastKey_page h hsum, hmore, hlast]

end Memory

/-- Where pages have no size of their own, a page with one limit and the page that goes on at its
last key with another limit are together the page with both limits, which goes on where the second
one goes on. A page without a last key has all that is beyond the start and passes the filter. -/
theorem pages_compose {m : Memory} (hsize : m.pageSize = none) {index : Option String}
    {forward : Bool} {items : List Item} (hordered : items.Pairwise (m.table.Before index forward))
    (start : Option Item) (test : Option Condition) {a b : Nat} (ha : 0 < a) (hb : 0 < b) :
    let page (start : Option Item) (limit : Nat) : Page :=
      m.page items index forward start (some limit) test
    (∀ key, (page start a).lastKey = some key →
      (page start a).items ++ (page (some key) b).items = (page start (a + b)).items ∧
      (page (some key) b).lastKey = (page start (a + b)).lastKey) ∧
    ((page start a).lastKey = none → (page start a).items = items.filter fun item =>
      m.table.Beyond index forward start item && Memory.kept test item) := by
  intro page
  have hbudget : ∀ n, m.budget (some n) = some n := fun n => by simp only [Memory.budget, hsize]
  have hbeyond : ∀ item, m.isBeyond index forward start item =
      decide (m.table.Beyond index forward start item) := fun item => by
    rw [Bool.eq_iff_iff, Memory.isBeyond_iff, decide_eq_true_iff]
  have hahead := Memory.ahead_start hordered start
  constructor
  · intro key hkey
    obtain ⟨-, hleft, hnext⟩ := Memory.ahead_of_lastKey hordered hahead (hbudget a) hkey
    exact ⟨Memory.items_page_append hahead hnext (hbudget a) (hbudget b) (hbudget (a + b)) test,
      Memory.lastKey_page_append hahead hnext hleft (hbudget b) hb (hbudget (a + b)) test⟩
  · intro hkey
    have hall := (Memory.lastKey_page_eq_none_iff hahead (hbudget a) ha test).mp hkey
    calc
      (page start a).items =
          ((items.filter (m.isBeyond index forward start)).take a).filter (Memory.kept test) :=
        Memory.items_page hahead (hbudget a) test
      _ = (items.filter (m.isBeyond index forward start)).filter (Memory.kept test) := by
        rw [List.take_of_length_le hall]
      _ = items.filter fun item =>
          m.table.Beyond index forward start item && Memory.kept test item := by
        rw [List.filter_filter]
        exact List.filter_congr fun item _ => by rw [hbeyond, Bool.and_comm]

theorem pages_compose_backwards :
    let table : Table :=
      ⟨"orders", ⟨"user", some "day"⟩, SortedMap.empty.insert "totals" ⟨"user", some "total"⟩⟩
    let item (day total : String) (paid : Bool) : Item :=
      (((SortedMap.empty.insert "user" (.string "u")).insert "day" (.string day)).insert "total"
        (.number total)).insert "paid" (.boolean paid)
    let items := [item "1" "50" true, item "4" "40" true, item "2" "30" false, item "5" "20" true,
      item "3" "10" false]
    let m := Memory.new table none items
    let page (start : Option Item) (limit : Nat) : Page := m.page items (some "totals") false start
      (some limit) (some (.compare ⟨"paid", []⟩ .equal (.boolean true)))
    let start := some (table.cursor (some "totals") (item "1" "50" true))
    let key := table.cursor (some "totals") (item "2" "30" false)
    (m.pageSize = none ∧ items.Pairwise (table.Before (some "totals") false)) ∧
      page start 2 = ⟨[item "4" "40" true], some key⟩ ∧
      page (some key) 2 = ⟨[item "5" "20" true], none⟩ ∧
      (page start 2).items ++ (page (some key) 2).items = (page start 4).items ∧
      (page (some key) 2).lastKey = (page start 4).lastKey ∧
      (page start 4).items = [item "4" "40" true, item "5" "20" true] := by
  intro table item items m page start key
  have hordered : items.Pairwise (table.Before (some "totals") false) := by decide +kernel
  have hfirst : page start 2 = ⟨[item "4" "40" true], some key⟩ := by decide +kernel
  have hnext : page (some key) 2 = ⟨[item "5" "20" true], none⟩ := by decide +kernel
  obtain ⟨hjoined, hlast⟩ := (@pages_compose m rfl _ _ _ hordered start _ 2 2 (by decide)
    (by decide)).1 key (congrArg Page.lastKey hfirst)
  have hwhole := (@pages_compose m rfl _ _ _ hordered start _ 4 1 (by decide) (by decide)).2
    (hlast.symm.trans (congrArg Page.lastKey hnext))
  exact ⟨⟨rfl, hordered⟩, hfirst, hnext, hjoined, hlast, hwhole.trans (by decide +kernel)⟩

end KeyedTable
