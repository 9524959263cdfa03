import KeyedTable.Client
import KeyedTable.Wire.Attributes

namespace KeyedTable.Wire

structure Sent where
  operation : String
  body : Json

def fieldIfSome {α : Type} (name : String) (value : Option α) (write : α → Json) :
    List (String × Json) :=
  (value.map fun v => (name, write v)).toList

def ofWriteCall (entry : WriteCall) : Json :=
  .object (fieldIfSome "PutRequest" entry.put (fun item => .object [("Item", ofItem item)]) ++
    fieldIfSome "DeleteRequest" entry.delete fun key => .object [("Key", ofItem key)])

def ofPlaceholders (placeholders : Placeholders) : List (String × Json) :=
  (if placeholders.names.isEmpty then []
   else [("ExpressionAttributeNames",
    .object (placeholders.names.entries.map fun e => (e.1, .string e.2)))]) ++
  (if placeholders.values.isEmpty then []
   else [("ExpressionAttributeValues", .object (ofFields placeholders.values.entries))])

def ofCount (count : Count) : Json := .int (Int.ofNat count.val)

def ofPage (page : PageCall) (own : List (String × Json)) : Json :=
  Json.ofFields (("TableName", .string page.table) :: own ++
    fieldIfSome "IndexName" page.index .string ++
    fieldIfSome "FilterExpression" page.filter .string ++
    ofPlaceholders page.placeholders ++
    fieldIfSome "ExclusiveStartKey" page.start ofItem ++
    fieldIfSome "Limit" page.limit ofCount)

def ofTables {α : Type} (tables : List (String × List α)) (write : List α → Json) : Json :=
  .object [("RequestItems", .object (tables.map fun table => (table.1, write table.2)))]

def write : Call → Sent
  | .getItem table key =>
    ⟨"GetItem", Json.ofFields [("TableName", .string table), ("Key", ofItem key)]⟩
  | .putItem put =>
    ⟨"PutItem", Json.ofFields ([("TableName", .string put.table), ("Item", ofItem put.item)] ++
      fieldIfSome "ConditionExpression" put.condition .string ++
      ofPlaceholders put.placeholders)⟩
  | .batchWriteItem tables =>
    ⟨"BatchWriteItem", ofTables tables fun entries => .array (entries.map ofWriteCall)⟩
  | .batchGetItem tables =>
    ⟨"BatchGetItem", ofTables tables fun keys => .object [("Keys", .array (keys.map ofItem))]⟩
  | .query page keyCondition forward =>
    ⟨"Query", ofPage page
      [("KeyConditionExpression", .string keyCondition), ("ScanIndexForward", .bool forward)]⟩
  | .scan page segment total =>
    ⟨"Scan", ofPage page [("Segment", ofCount segment), ("TotalSegments", ofCount total)]⟩

def carried : Call → List Item
  | .getItem _ key => [key]
  | .putItem put => [put.item, put.placeholders.values]
  | .batchWriteItem tables =>
    tables.flatMap fun table => table.2.flatMap fun entry => entry.put.toList ++ entry.delete.toList
  | .batchGetItem tables => tables.flatMap Prod.snd
  | .query page _ _ | .scan page _ _ => page.placeholders.values :: page.start.toList

def namesTable : Call → Bool
  | .batchWriteItem _ | .batchGetItem _ => true
  | .getItem table _ => !isBlankText table
  | .putItem put => !isBlankText put.table
  | .query page _ _ | .scan page _ _ => !isBlankText page.table

def isSendable (call : Call) : Bool := namesTable call && (carried call).all isKnownItem

end KeyedTable.Wire
