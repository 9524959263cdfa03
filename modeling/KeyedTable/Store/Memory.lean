import KeyedTable.Condition.Evaluation
import KeyedTable.Condition.Resolution
import KeyedTable.Store.Memory.Basic

/-! The table in memory as a store. -/

namespace KeyedTable

namespace Memory

def store (m : Memory) (item : Item) : Memory :=
  { m with items := m.items.insert (m.table.primaryOrder item) item }

def lookup (m : Memory) (key : Item) : Option Item := m.items.get? (m.table.primaryOrder key)

def put (m : Memory) (put : Put) : Except Error Unit × Memory :=
  match put.placeholders.resolveFilter put.condition with
  | .error error => (.error error, m)
  | .ok none => (.ok (), m.store put.item)
  | .ok (some condition) =>
    if condition.holds ((m.lookup put.item).getD .empty) then (.ok (), m.store put.item)
    else (.error (.conditionalCheckFailed "The conditional request failed"), m)

def processed (m : Memory) (n : Nat) : Nat := if m.halving = 0 then n else (n + 1) / 2

theorem processed_pos (m : Memory) {n : Nat} (h : 0 < n) : 0 < m.processed n := by
  unfold processed
  split
  · exact h
  · omega

/-- Applies the entries in order, up to the first delete whose key has not as many attributes as
the primary key. -/
def applyEntries (m : Memory) : List WriteEntry → Except Error Unit × Memory
  | [] => (.ok (), m)
  | .put item :: rest => (m.store item).applyEntries rest
  | .delete key :: rest =>
    if key.size ≠ m.table.primaryKey.names.length then (.error (.invalidArgument .keyMismatch), m)
    else
      applyEntries { m with items := m.items.erase (m.table.primaryOrder key) } rest

def writeBatch (m : Memory) (entries : List WriteEntry) :
    Except Error (List WriteEntry) × Memory :=
  let n := m.processed entries.length
  let (result, after) := applyEntries { m with halving := m.halving - 1 } (entries.take n)
  (result.map fun _ => entries.drop n, after)

def getBatch (m : Memory) (keys : List Item) : Except Error Found × Memory :=
  let n := m.processed keys.length
  (.ok ⟨(keys.take n).filterMap m.lookup, keys.drop n⟩, { m with halving := m.halving - 1 })

/-- The items that a read can see, in its order. An index holds only the items that have every
attribute of its key. -/
def visible (m : Memory) (index : Option String) : Except Error (List Item) :=
  match index with
  | none => .ok m.items.values
  | some name =>
    match m.table.indexes.get? name with
    | none => .error (.resourceNotFound ("index " ++ name))
    | some schema =>
      let covered := m.items.values.filter schema.coveredBy
      .ok (SortedMap.ofList (covered.map fun item => (m.table.readOrder index item, item))).values

def isBeyond (m : Memory) (index : Option String) (forward : Bool) (start : Option Item)
    (item : Item) : Bool :=
  match start with
  | none => true
  | some key =>
    if forward then decide (m.table.readOrder index key < m.table.readOrder index item)
    else decide (m.table.readOrder index item < m.table.readOrder index key)

def budget (m : Memory) (limit : Option Nat) : Option Nat :=
  match limit, m.pageSize with
  | some a, some b => some (min a b)
  | some a, none => some a
  | none, bound => bound

/-- One page of the candidates: those beyond the start, as many as may be looked at, of which the
filter keeps some. -/
def page (m : Memory) (candidates : List Item) (index : Option String) (forward : Bool)
    (start : Option Item) (limit : Option Nat) (filter : Option Condition) : Page :=
  let remaining := candidates.filter (m.isBeyond index forward start)
  let evaluated := match m.budget limit with
    | some n => remaining.take n
    | none => remaining
  { items := evaluated.filter fun item => filter.all (·.holds item)
    lastKey :=
      if evaluated.length < remaining.length then evaluated.getLast?.map (m.table.cursor index)
      else none }

def candidates (m : Memory) (read : Read) : Except Error (List Item) :=
  match read.scope with
  | .query keyCondition forward => do
    let condition ← read.placeholders.resolve keyCondition
    let items := (← m.visible read.index).filter condition.holds
    return if forward then items else items.reverse
  | .segment number total => do
    return (← m.visible read.index).filter fun item =>
      segmentOf (m.table.primaryOrder item) total == number

def read (m : Memory) (read : Read) : Except Error Page := do
  let filter ← read.placeholders.resolveFilter read.filter
  let candidates ← m.candidates read
  return m.page candidates read.index read.scope.isForward read.start read.limit filter

def serve (m : Memory) : (request : Request) → Except Error request.Reply × Memory
  | .get _ key => (.ok (m.lookup key), m)
  | .put put => m.put put
  | .writeBatch _ entries => m.writeBatch entries
  | .getBatch _ keys => m.getBatch keys
  | .read read => (m.read read, m)

def answer (request : Request) (m : Memory) : Except Error request.Reply × Memory :=
  match m.check request with
  | .error error => (.error error, m)
  | .ok () =>
    match m.interrupt with
    | some (error, after) => (.error error, after)
    | none => (m.count request).serve request

end Memory

/-- A read looks at another item with every page that is not its last. -/
def Store.memory : Store Memory := ⟨Memory.answer, fun m => m.items.size⟩

end KeyedTable
