import KeyedTable.Gateway.Batch
import KeyedTable.Gateway.Paging
import KeyedTable.Task

/-! The parts of a batch and the segments of a scan at the same time: where one of them pauses, any
other one may go on. -/

namespace KeyedTable.Gateway

variable {σ α : Type} (g : Gateway σ)

def receive : Event → σ → σ
  | .delivered page, s => g.visit page s
  | .asked _ _, s | .waited _, s | .logged _, s => s

def poll : Task α → Action σ (Task α)
  | .ended outcome => Action.done (.ended outcome)
  | .ask request answered => fun s =>
    let reply := g.store.answer request s
    (poll (answered reply.1) reply.2).after (.asked request (refusal? reply.1))
  | .emit event rest => fun s => (poll rest (g.receive event s)).after event
  | .pause rest => Action.done rest

def carryOut : Task α → Action σ α
  | .ended outcome => fun s => ⟨outcome, s, []⟩
  | .ask request answered => fun s =>
    let reply := g.store.answer request s
    (carryOut (answered reply.1) reply.2).after (.asked request (refusal? reply.1))
  | .emit event rest => fun s => (carryOut rest (g.receive event s)).after event
  | .pause rest => carryOut rest

def begin (start : σ → Task α) : Action σ (Task α) := fun s => g.poll (start s) s

def takeUp (tasks : List (Task α)) (number : Nat) : Action σ (List (Task α)) :=
  match tasks[number]? with
  | some task => do return tasks.set number (← g.poll task)
  | none => return tasks

/-- Begins the tasks one after the other, then lets them go on in the order of the schedule, and
brings those that are left then to their ends. -/
def together (schedule : List Nat) (starts : List (σ → Task α)) : Action σ (List α) := do
  let begun ← Action.all (starts.map g.begin)
  let left ← schedule.foldlM g.takeUp begun
  Action.all (left.map g.carryOut)

def asking (pauses : Pauses) (request : Request) : Task request.Reply :=
  g.retry.asking pauses request g.retry.maxRetries 0

def writing (pauses : Pauses) : Nat → List WriteEntry → Task Unit
  | _, [] => return ()
  | 0, _ :: _ => .ended .unfinished
  | rounds + 1, entry :: entries => do
    let unprocessed ← g.asking pauses (.writeBatch g.table.name (entry :: entries))
    writing pauses rounds unprocessed

def getting (pauses : Pauses) : Nat → List Item → Task (List Item)
  | _, [] => return []
  | 0, _ :: _ => .ended .unfinished
  | rounds + 1, key :: keys => do
    let found ← g.asking pauses (.getBatch g.table.name (key :: keys))
    let items ← getting pauses rounds found.unprocessed
    return found.items ++ items

def reading (pauses : Pauses) : (rounds : Nat) → (prev : Option (Option Item)) → Read → Task Unit
  | 0, _, _ => .ended .unfinished
  | rounds + 1, prev, read => do
    let page ← g.asking pauses (.read read)
    let cursor := g.table.cursor read.index
    let settled := prev.getD (page.items.head?.map cursor)
    .emit (.delivered
      ⟨page.items, read.scope.segmentNumber, settled, page.lastKey.map cursor⟩) <|
      match page.lastKey, charge read.limit page.items.length with
      | some key, some limit =>
        reading pauses rounds (some settled) { read with start := some key, limit }
      | _, _ => return ()

def writeStart (pauses : Pauses) (entries : List WriteEntry) (s : σ) : Task Unit :=
  g.writing pauses (g.store.horizon s + entries.length) entries

def getStart (pauses : Pauses) (keys : List Item) (s : σ) : Task (List Item) :=
  g.getting pauses (g.store.horizon s + keys.length) keys

def readStart (pauses : Pauses) (read : Read) (s : σ) : Task Unit :=
  g.reading pauses (g.store.horizon s + 1) (some none) read

def writeTogether (pauses : Pauses) (schedule : List Nat) (entries : List WriteEntry) :
    Action σ Unit := do
  let reduced := entries.map (WriteEntry.reduce g.table)
  let _ ← g.together schedule ((batches writeBatchSize reduced).map (g.writeStart pauses))
  Action.note (.logged (.wroteBatch reduced.length g.table.name))

def getTogether (pauses : Pauses) (schedule : List Nat) (keys : List Item) :
    Action σ (List Item) := do
  let found ← g.together schedule
    ((batches getBatchSize (keys.map g.table.keyOf)).map (g.getStart pauses))
  let items := found.flatten
  Action.note (.logged (.gotBatch items.length g.table.name))
  return items

def scanTogether (pauses : Pauses) (schedule : List Nat) (segments : Nat) (options : ScanOptions)
    (start : Option (List (Option Item))) : Action σ Unit := do
  let reads ← Action.ofExcept (g.scanReads segments options start)
  let _ ← g.together schedule (reads.map (g.readStart pauses))

end KeyedTable.Gateway
