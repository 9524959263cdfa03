import KeyedTable.Gateway.Paging

namespace KeyedTable

def deliveries (events : List Event) : List Delivery :=
  events.filterMap fun
    | .delivered page => some page
    | _ => none

def lastCursor (pages : List Delivery) : Option Item := pages.getLast?.bind Delivery.next

/-- For each segment where its last page says that the next one begins. -/
def segmentCursors (segments : Nat) (pages : List Delivery) : List (Option Item) :=
  (List.range segments).map fun number => lastCursor (pages.filter (·.segment == number))

namespace Gateway

variable {σ : Type}

/-- Makes at most `calls` calls, each from what the pages of the one before leave to be read, and
counts them. -/
def resume {κ : Type} (call : κ → Action σ Unit) (left : List Delivery → Option κ) :
    Nat → κ → Action σ Nat
  | 0, _ => return 0
  | calls + 1, cursor => fun s =>
    let ran := call cursor s
    match ran.outcome with
    | .failed error => ⟨.failed error, ran.store, ran.events⟩
    | .unfinished => ⟨.unfinished, ran.store, ran.events⟩
    | .done _ =>
      match left (deliveries ran.events) with
      | none => ⟨.done 1, ran.store, ran.events⟩
      | some cursor =>
        let rest := (resume call left calls cursor >>= fun n => return n + 1) ran.store
        ⟨rest.outcome, rest.store, ran.events ++ rest.events⟩

def queryAll (g : Gateway σ) (calls : Nat) (key : String) (options : QueryOptions) :
    Action σ Nat :=
  resume (fun start => g.query key { options with start }) (fun pages =>
    (lastCursor pages).map some) calls options.start

def scanAll (g : Gateway σ) (calls : Nat) (options : ScanOptions) (start : Option Item) :
    Action σ Nat :=
  resume (g.scan options) (fun pages => (lastCursor pages).map some) calls start

def parallelScanAll (g : Gateway σ) (calls segments : Nat) (options : ScanOptions) :
    Action σ Nat :=
  resume (g.parallelScan segments options) (fun pages =>
    let cursors := segmentCursors segments pages
    if cursors.all Option.isNone then none else some (some cursors)) calls none

end Gateway

end KeyedTable
