import KeyedTable.CommandLine.Browse
import KeyedTable.Gateway.Batch

namespace KeyedTable.Gateway

variable {σ : Type}

open Command

def putCommand (g : Gateway σ) : Command σ Unit := do
  let text ← prompt "Enter item as JSON" (some
    "\x7b\"category\": \"Books\", \"product_name\": \"Dune\", \"price\": 9.99\x7d")
  let item ← ofExcept id (readItem text)
  let condition ← promptOptional "Enter condition (or press Enter for none)"
    "attribute_not_exists(category)"
  silently (g.put item condition)
  say (.log .info "Item added successfully!")

def getCommand (g : Gateway σ) : Command σ Unit := do
  let key ← promptKey g.table.primaryKey.names
  match ← silently (g.get key) with
  | some item => printLine ("Item found: " ++ Report.itemText item)
  | none => printLine "Item not found"

def deleteCommand (g : Gateway σ) : Command σ Unit := do
  let key ← promptKey g.table.primaryKey.names
  silently (g.batchWrite [.delete key])
  printLine "Item deleted successfully!"

def batchPutCommand (g : Gateway σ) : Command σ Unit := do
  let text ← prompt "Enter items as a JSON array" (some
    "[\x7b\"category\": \"Books\", \"product_name\": \"Dune\"\x7d]")
  let items ← ofExcept id (readItems text)
  silently (g.batchWrite (items.map .put))
  printLine s!"{items.length} items written"

def queryCommand (g : Gateway σ) : Command σ Unit := do
  let key ← prompt "Enter key condition" (some "category = \"Books\"")
  let index ← promptIndex
  let filter ← promptFilter
  let forward ← promptYes "Ascending sort key order?" true
  let limit ← promptLimit
  let call (start : Option Item) := g.query key { index, filter, forward, start, limit }
  g.rounds fun rounds => pageOn "Query Results" call rounds 1 none

def scanCommand (g : Gateway σ) : Command σ Unit := do
  let options ← promptScanOptions
  g.rounds fun rounds => pageOn "Scan Results" (g.scan options) rounds 1 none

def segmentsCommand (g : Gateway σ)
    (call : Nat → ScanOptions → Option (List (Option Item)) → Action σ Unit) :
    Command σ Unit := do
  let segments ← count "number of segments" (← prompt "Enter number of segments" (some "4"))
  let options ← promptScanOptions
  g.rounds fun rounds => segmentsOn (call segments options) segments rounds none

def parallelScanCommand (g : Gateway σ) : Command σ Unit := g.segmentsCommand g.parallelScan

def compileCommand : Command σ Unit := do
  let text ← prompt "Enter expression" (some "price > 10 and begins_with(name, \"a\")")
  let isKey ← promptYes "Is this a key condition?" false
  let compiled ←
    if isKey then ofExcept .expression (compileKey text none)
    else match ← ofExcept .expression (compileFilter (some text) none) with
      | some compiled => pure compiled
      | none => Command.fail .emptyExpression
  printLines (Report.describeCompiled compiled)

def command? (g : Gateway σ) : String → Option (Command σ Unit)
  | "info" => some (printLines (Report.describeTable g.table))
  | "put" => some g.putCommand
  | "get" => some g.getCommand
  | "delete" => some g.deleteCommand
  | "batch_put" => some g.batchPutCommand
  | "query" => some g.queryCommand
  | "scan" => some g.scanCommand
  | "parallel_scan" => some g.parallelScanCommand
  | "compile" => some compileCommand
  | _ => none

end KeyedTable.Gateway
