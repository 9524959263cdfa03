import KeyedTable.Gateway.Basic

namespace KeyedTable

def batches {α : Type} (size : Nat) (xs : List α) : List (List α) :=
  (List.range ((xs.length + size - 1) / size)).map fun i => (xs.drop (i * size)).take size

namespace WriteEntry

def reduce (table : Table) : WriteEntry → WriteEntry
  | .put item => .put item
  | .delete key => .delete (table.keyOf key)

end WriteEntry

namespace Gateway

variable {σ : Type}

/-- Sends the entries, then those that are given back, until none is. -/
def writeRounds (g : Gateway σ) : Nat → List WriteEntry → Action σ Unit
  | _, [] => return ()
  | 0, _ :: _ => Action.unfinished
  | rounds + 1, entry :: entries => do
    let unprocessed ← g.submit (.writeBatch g.table.name (entry :: entries))
    g.writeRounds rounds unprocessed

def writeOne (g : Gateway σ) (entries : List WriteEntry) : Action σ Unit := fun s =>
  g.writeRounds (g.store.horizon s + entries.length) entries s

def batchWrite (g : Gateway σ) (entries : List WriteEntry) : Action σ Unit := do
  let reduced := entries.map (WriteEntry.reduce g.table)
  let _ ← Action.all ((batches writeBatchSize reduced).map g.writeOne)
  Action.note (.logged (.wroteBatch reduced.length g.table.name))

def getRounds (g : Gateway σ) : Nat → List Item → Action σ (List Item)
  | _, [] => return []
  | 0, _ :: _ => Action.unfinished
  | rounds + 1, key :: keys => do
    let found ← g.submit (.getBatch g.table.name (key :: keys))
    let items ← g.getRounds rounds found.unprocessed
    return found.items ++ items

def getOne (g : Gateway σ) (keys : List Item) : Action σ (List Item) := fun s =>
  g.getRounds (g.store.horizon s + keys.length) keys s

def batchGet (g : Gateway σ) (keys : List Item) : Action σ (List Item) := do
  let found ← Action.all ((batches getBatchSize (keys.map g.table.keyOf)).map g.getOne)
  let items := found.flatten
  Action.note (.logged (.gotBatch items.length g.table.name))
  return items

end Gateway

end KeyedTable
