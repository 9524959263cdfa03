import KeyedTable.Gateway.Basic

/-! Reads of many items, page by page: queries, and scans of the whole table or of its segments. -/

namespace KeyedTable

structure QueryOptions where
  index : Option String
  filter : Option String
  forward : Bool
  start : Option Item
  limit : Option Nat

structure ScanOptions where
  index : Option String
  filter : Option String
  limit : Option Nat

def charge (limit : Option Nat) (fetched : Nat) : Option (Option Nat) :=
  match limit with
  | none => some none
  | some n => if n ≤ fetched then none else some (some (n - fetched))

def checkLimit (limit : Option Nat) : Except Error Unit :=
  if limit = some 0 then .error (.invalidArgument .zeroLimit) else .ok ()

def checkCursors (segments : Nat) (start : Option (List (Option Item))) : Except Error Unit :=
  if segments = 0 then .error (.invalidArgument .noSegments)
  else match start with
    | some cursors =>
      if cursors.length = segments then .ok ()
      else .error (.invalidArgument (.cursorCount cursors.length segments))
    | none => .ok ()

namespace Gateway

variable {σ : Type}

/-- Reads on from page to page. `prev` is none until the first page settles it. -/
def pages (g : Gateway σ) : (rounds : Nat) → (prev : Option (Option Item)) → Read → Action σ Unit
  | 0, _, _ => Action.unfinished
  | rounds + 1, prev, read => do
    let page ← g.submit (.read read)
    let cursor := g.table.cursor read.index
    let settled := prev.getD (page.items.head?.map cursor)
    Action.deliver g.visit
      ⟨page.items, read.scope.segmentNumber, settled, page.lastKey.map cursor⟩
    match page.lastKey, charge read.limit page.items.length with
    | some key, some limit => g.pages rounds (some settled) { read with start := some key, limit }
    | _, _ => return ()

def readFrom (g : Gateway σ) (prev : Option (Option Item)) (read : Read) : Action σ Unit := fun s =>
  g.pages (g.store.horizon s + 1) prev read s

def queryRead (g : Gateway σ) (key : String) (options : QueryOptions) : Except Error Read := do
  checkLimit options.limit
  let condition ← (compileKey key none).mapError .expression
  let filter ← filterExpression options.filter (some condition)
  return {
    table := g.table.name
    index := options.index
    scope := .query condition.expression options.forward
    filter := filter.map Compiled.expression
    placeholders := (filter.getD condition).placeholders
    start := options.start
    limit := options.limit }

def query (g : Gateway σ) (key : String) (options : QueryOptions) : Action σ Unit := do
  let read ← Action.ofExcept (g.queryRead key options)
  g.readFrom (options.start.map fun start => some (g.table.cursor options.index start)) read

/-- The most segments of which the beginnings, of 56 bytes each, can be held: `2 ^ 63 - 1` bytes are
the most that there may be in one list. -/
def segmentCapacity : Nat := 9223372036854775807 / 56

/-- The segments to read and where each begins; one without cursor is finished. -/
def segmentStarts (segments : Nat) : Option (List (Option Item)) → List (Nat × Option Item)
  | none => (List.range segments).map fun number => (number, none)
  | some cursors =>
    cursors.zipIdx.filterMap fun (cursor, number) => cursor.map fun key => (number, some key)

def scanReads (g : Gateway σ) (segments : Nat) (options : ScanOptions)
    (start : Option (List (Option Item))) : Except Error (List Read) := do
  checkCursors segments start
  checkLimit options.limit
  let filter ← filterExpression options.filter none
  return (segmentStarts segments start).map fun (number, key) => {
    table := g.table.name
    index := options.index
    scope := .segment number segments
    filter := filter.map Compiled.expression
    placeholders := placeholdersOf filter
    start := key
    limit := options.limit }

/-- Scans in so many segments, each to its end, also if another one fails. -/
def parallelScan (g : Gateway σ) (segments : Nat) (options : ScanOptions)
    (start : Option (List (Option Item))) : Action σ Unit := do
  let reads ← Action.ofExcept (g.scanReads segments options start)
  let _ ← Action.all (reads.map (g.readFrom (some none)))

def scan (g : Gateway σ) (options : ScanOptions) (start : Option Item) : Action σ Unit :=
  g.parallelScan 1 options (start.map fun key => [some key])

end Gateway

end KeyedTable
