import KeyedTable.CommandLine.Command
import KeyedTable.CommandLine.Report
import KeyedTable.Gateway.Resume

namespace KeyedTable

namespace Command

variable {σ α β : Type}

def promptLimit : Command σ (Option Nat) := do
  match ← promptOptional "Enter limit (or press Enter for none)" "10" with
  | none => return none
  | some text => return some (← count "limit" text)

def promptIndex : Command σ (Option String) :=
  promptOptional "Enter index name (or press Enter for none)" "GSI1"

def promptFilter : Command σ (Option String) :=
  promptOptional "Enter filter (or press Enter for none)" "price > 10"

def promptScanOptions : Command σ ScanOptions := do
  let index ← promptIndex
  let filter ← promptFilter
  let limit ← promptLimit
  return { index, filter, limit }

def sayAll : List Output → Dialogue α → Dialogue α
  | [], rest => rest
  | output :: outputs, rest => .tell output (sayAll outputs rest)

def shown (lines : Nat → Delivery → List String) : (number : Nat) → List Event → List Output
  | _, [] => []
  | number, .delivered page :: events =>
    .event (.delivered page) :: (lines number page).map (fun line => .text (line ++ "\n")) ++
      shown lines (number + 1) events
  | number, event :: events => .event event :: shown lines number events

def perform (action : Action σ α) (lines : Nat → Delivery → List String) (number : Nat) :
    Command σ (α × List Delivery) := fun s =>
  let ran := action s
  sayAll (shown lines number ran.events) (.done
    (match ran.outcome with
      | .done value => .ok (value, deliveries ran.events)
      | .failed error => .error (.failed error)
      | .unfinished => .error .unfinished, ran.store))

def silently (action : Action σ α) : Command σ α := do
  return (← perform action (fun _ _ => []) 0).1

def pageOn (title : String) (call : Option Item → Action σ Unit) :
    (rounds number : Nat) → Option Item → Command σ Unit
  | 0, _, _ => fail .unfinished
  | rounds + 1, number, start => do
    let (_, pages) ← perform (call start) (Report.numbered title) number
    match lastCursor pages with
    | none => return ()
    | some cursor =>
      if ← promptYes "Continue to next page?" true then
        pageOn title call rounds (number + pages.length) (some cursor)

def segmentsOn (call : Option (List (Option Item)) → Action σ Unit) (segments : Nat) :
    (rounds : Nat) → Option (List (Option Item)) → Command σ Unit
  | 0, _ => fail .unfinished
  | rounds + 1, start => do
    let (_, pages) ← perform (call start) (fun _ => Report.segmentLines) 0
    let cursors := segmentCursors segments pages
    let pending := (cursors.filter Option.isSome).length
    if pending = 0 then printLine "All segments finished"
    else if ← promptYes s!"{pending} segments have more items. Continue?" true then
      segmentsOn call segments rounds (some cursors)

end Command

namespace Gateway

variable {σ : Type}

/-- No conversation about a read has more rounds than this. -/
def rounds (g : Gateway σ) (command : Nat → Command σ Unit) : Command σ Unit := fun s =>
  command (g.store.horizon s + 1) s

end Gateway

end KeyedTable
