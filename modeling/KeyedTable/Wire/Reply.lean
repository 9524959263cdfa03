import KeyedTable.Client
import KeyedTable.Wire.Attributes

namespace KeyedTable.Wire

def capacityUnits : List (String × Part Unit) :=
  [("CapacityUnits", Part.number.checked), ("ReadCapacityUnits", Part.number.checked),
    ("WriteCapacityUnits", Part.number.checked)]

def capacity : Part Unit := Part.record capacityUnits fun _ => ()

def vectorCapacity : Part Unit :=
  Part.record [("VectorSearchRequestBytes", Part.number.checked),
    ("VectorWriteRequestBytes", Part.number.checked)] fun _ => ()

def consumedCapacity : Part Unit :=
  Part.record (("TableName", Part.text.checked) :: ("Table", capacity) ::
    ("LocalSecondaryIndexes", (Part.map capacity).checked) ::
    ("GlobalSecondaryIndexes", (Part.map capacity).checked) ::
    ("VectorIndexes", (Part.map vectorCapacity).checked) :: capacityUnits) fun _ => ()

def collectionMetrics : Part Unit :=
  Part.record [("ItemCollectionKey", attributes.checked),
    ("SizeEstimateRangeGB", (Part.list Part.number).checked)] fun _ => ()

def found : Part (Option Item) :=
  Part.record [("Item", attributes.checked), ("ConsumedCapacity", consumedCapacity)] fun reply =>
    reply.get? "Item" attributes

def stored : Part Unit :=
  Part.record [("Attributes", attributes.checked), ("ConsumedCapacity", consumedCapacity),
    ("ItemCollectionMetrics", collectionMetrics)] fun _ => ()

def putEntry : Part Item :=
  Part.record [("Item", attributes.checked)] fun entry => (entry.get? "Item" attributes).getD .empty

def deleteEntry : Part Item :=
  Part.record [("Key", attributes.checked)] fun entry => (entry.get? "Key" attributes).getD .empty

def writeEntry : Part WriteCall :=
  Part.record [("PutRequest", putEntry.checked), ("DeleteRequest", deleteEntry.checked)]
    fun entry => ⟨entry.get? "PutRequest" putEntry, entry.get? "DeleteRequest" deleteEntry⟩

def unprocessedEntries : Part (Option (SortedMap String (List WriteCall))) :=
  let tables := Part.map (Part.list writeEntry)
  Part.record [("UnprocessedItems", tables.checked),
    ("ItemCollectionMetrics", (Part.map (Part.list collectionMetrics)).checked),
    ("ConsumedCapacity", (Part.list consumedCapacity).checked)] fun reply =>
    reply.get? "UnprocessedItems" tables

def keys : Part (List Item) :=
  Part.record [("Keys", (Part.list attributes).checked),
    ("AttributesToGet", (Part.list Part.text).checked), ("ConsistentRead", Part.flag.checked),
    ("ProjectionExpression", Part.text.checked),
    ("ExpressionAttributeNames", (Part.map Part.text).checked)] fun entry =>
    (entry.get? "Keys" (Part.list attributes)).getD []

def foundByKeys : Part FoundAnswer :=
  let items := Part.map (Part.list attributes)
  Part.record [("Responses", items.checked), ("UnprocessedKeys", (Part.map keys).checked),
    ("ConsumedCapacity", (Part.list consumedCapacity).checked)] fun reply =>
    ⟨reply.get? "Responses" items, reply.get? "UnprocessedKeys" (Part.map keys)⟩

def page : Part PageAnswer :=
  Part.record [("Items", (Part.list attributes).checked), ("Count", Part.count.checked),
    ("ScannedCount", Part.count.checked), ("LastEvaluatedKey", attributes.checked),
    ("ConsumedCapacity", consumedCapacity)] fun reply =>
    ⟨reply.get? "Items" (Part.list attributes), reply.get? "LastEvaluatedKey" attributes⟩

def answered : (call : Call) → Part call.Answer
  | .getItem _ _ => found
  | .putItem _ => stored
  | .batchWriteItem _ => unprocessedEntries
  | .batchGetItem _ => foundByKeys
  | .query _ _ _ | .scan _ _ _ => page

end KeyedTable.Wire
