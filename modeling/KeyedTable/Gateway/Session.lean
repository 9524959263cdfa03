import KeyedTable.Gateway.Together
import KeyedTable.Store.Memory

namespace KeyedTable

inductive Operation
  | get (key : Item)
  | put (item : Item) (condition : Option String)
  | batchWrite (entries : List WriteEntry)
  | batchGet (keys : List Item)
  | query (key : String) (options : QueryOptions)
  | scan (options : ScanOptions) (start : Option Item)
  | parallelScan (segments : Nat) (options : ScanOptions) (start : Option (List (Option Item)))

inductive Yield
  | nothing
  | item (found : Option Item)
  | items (found : List Item)
  deriving DecidableEq

namespace Gateway

variable {σ : Type}

def perform (g : Gateway σ) : Operation → Action σ Yield
  | .get key => do return .item (← g.get key)
  | .put item condition => do
    g.put item condition
    return .nothing
  | .batchWrite entries => do
    g.batchWrite entries
    return .nothing
  | .batchGet keys => do return .items (← g.batchGet keys)
  | .query key options => do
    g.query key options
    return .nothing
  | .scan options start => do
    g.scan options start
    return .nothing
  | .parallelScan segments options start => do
    g.parallelScan segments options start
    return .nothing

/-- `perform` where the parts of a batch and the segments of a scan may pause. -/
def performTogether (g : Gateway σ) (pauses : Pauses) (schedule : List Nat) :
    Operation → Action σ Yield
  | .batchWrite entries => do
    g.writeTogether pauses schedule entries
    return .nothing
  | .batchGet keys => do return .items (← g.getTogether pauses schedule keys)
  | .parallelScan segments options start => do
    g.scanTogether pauses schedule segments options start
    return .nothing
  | operation => g.perform operation

end Gateway

/-- What the receiver of pages changes about the table after the pages it was handed, the last of
them just now. -/
abbrev Receiver := List Delivery → Injection

def Receiver.visit (receiver : Receiver) (page : Delivery) (s : Memory × List Delivery) :
    Memory × List Delivery :=
  (s.1.inject (receiver (s.2 ++ [page])), s.2 ++ [page])

def Gateway.received (table : Table) (retry : RetryPolicy) (receiver : Receiver) :
    Gateway (Memory × List Delivery) :=
  ⟨Store.memory.beside (List Delivery), table, retry, receiver.visit⟩

inductive SessionStep
  | inject (injection : Injection)
  /-- The parts of the operation go on in the order of the schedule. -/
  | perform (operation : Operation) (receiver : Receiver) (schedule : List Nat)

/-- The operations of a session as they run, each from the table that the one before left, whether
that one failed or not. -/
def session (table : Table) (retry : RetryPolicy) (pauses : Pauses) :
    List SessionStep → Memory → List (Ran Memory Yield)
  | [], _ => []
  | .inject injection :: steps, m => session table retry pauses steps (m.inject injection)
  | .perform operation receiver schedule :: steps, m =>
    let g := Gateway.received table retry receiver
    let ran := g.performTogether pauses schedule operation (m, [])
    ⟨ran.outcome, ran.store.1, ran.events⟩ :: session table retry pauses steps ran.store.1

end KeyedTable
