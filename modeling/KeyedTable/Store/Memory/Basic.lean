import KeyedTable.OrderKey
import KeyedTable.Request

namespace KeyedTable

structure Tally where
  gets : Nat
  puts : Nat
  writeBatches : List Nat
  getBatches : List Nat
  queries : Nat
  scans : Nat
  throttled : Nat
  deriving DecidableEq, Repr

namespace Tally

def zero : Tally := ⟨0, 0, [], [], 0, 0, 0⟩

def add (t : Tally) : Request → Tally
  | .get _ _ => { t with gets := t.gets + 1 }
  | .put _ => { t with puts := t.puts + 1 }
  | .writeBatch _ entries => { t with writeBatches := t.writeBatches ++ [entries.length] }
  | .getBatch _ keys => { t with getBatches := t.getBatches ++ [keys.length] }
  | .read read =>
    match read.scope with
    | .query _ _ => { t with queries := t.queries + 1 }
    | .segment _ _ => { t with scans := t.scans + 1 }

end Tally

structure Memory where
  table : Table
  pageSize : Option Nat
  items : SortedMap OrderKey Item
  failing : Nat
  throttling : Nat
  /-- How many of the next batches are left half unprocessed. -/
  halving : Nat
  tally : Tally

structure Injection where
  failing : Option Nat
  throttling : Option Nat
  halving : Option Nat

namespace Memory

def new (table : Table) (pageSize : Option Nat) (items : List Item) : Memory where
  table := table
  pageSize := pageSize
  items := SortedMap.ofList (items.map fun item => (table.primaryOrder item, item))
  failing := 0
  throttling := 0
  halving := 0
  tally := .zero

def inject (m : Memory) (injection : Injection) : Memory :=
  { m with
    failing := injection.failing.getD m.failing
    throttling := injection.throttling.getD m.throttling
    halving := injection.halving.getD m.halving }

def checkScope : Scope → Except Error Unit
  | .query _ _ => .ok ()
  | .segment number total =>
    if total ≤ number then .error (.invalidArgument (.segment number total)) else .ok ()

def checkShape : Request → Except Error Unit
  | .get _ _ | .put _ => .ok ()
  | .writeBatch _ entries =>
    if entries.isEmpty || writeBatchSize < entries.length then
      .error (.invalidArgument (.writeCount entries.length))
    else .ok ()
  | .getBatch _ keys =>
    if keys.isEmpty || getBatchSize < keys.length then
      .error (.invalidArgument (.keyCount keys.length))
    else .ok ()
  | .read read => checkScope read.scope

def check (m : Memory) (request : Request) : Except Error Unit :=
  if request.table ≠ m.table.name then
    .error (.resourceNotFound ("table " ++ request.table))
  else checkShape request

/-- The failure that is due, if any; failures come before throttling. -/
def interrupt (m : Memory) : Option (Error × Memory) :=
  if 0 < m.failing then
    some (.request "InternalServerError", { m with failing := m.failing - 1 })
  else if 0 < m.throttling then
    some (.throttled "ProvisionedThroughputExceededException",
      { m with
        throttling := m.throttling - 1
        tally := { m.tally with throttled := m.tally.throttled + 1 } })
  else none

def count (m : Memory) (request : Request) : Memory := { m with tally := m.tally.add request }

end Memory

end KeyedTable
