import KeyedTable.Request

namespace KeyedTable

def maxCount : Nat := 2147483647

abbrev Count := { n : Nat // n ≤ maxCount }

def Count.ofNat (what : String) (n : Nat) : Except Error Count :=
  if h : n ≤ maxCount then .ok ⟨n, h⟩ else .error (.invalidArgument (.outOfRange what))

structure WriteCall where
  put : Option Item
  delete : Option Item
  deriving DecidableEq

def WriteCall.ofEntry : WriteEntry → WriteCall
  | .put item => ⟨some item, none⟩
  | .delete key => ⟨none, some key⟩

def WriteCall.write? (call : WriteCall) : Option WriteEntry :=
  (call.put.map .put).or (call.delete.map .delete)

structure PageCall where
  table : String
  index : Option String
  filter : Option String
  placeholders : Placeholders
  start : Option Item
  limit : Option Count
  deriving DecidableEq

inductive Call
  | getItem (table : String) (key : Item)
  | putItem (put : Put)
  | batchWriteItem (tables : List (String × List WriteCall))
  | batchGetItem (tables : List (String × List Item))
  | query (page : PageCall) (keyCondition : String) (forward : Bool)
  | scan (page : PageCall) (segment total : Count)
  deriving DecidableEq

structure FoundAnswer where
  responses : Option (SortedMap String (List Item))
  unprocessed : Option (SortedMap String (List Item))
  deriving DecidableEq

structure PageAnswer where
  items : Option (List Item)
  lastKey : Option Item
  deriving DecidableEq

@[reducible] def Call.Answer : Call → Type
  | .getItem _ _ => Option Item
  | .putItem _ => Unit
  | .batchWriteItem _ => Option (SortedMap String (List WriteCall))
  | .batchGetItem _ => FoundAnswer
  | .query _ _ _ | .scan _ _ _ => PageAnswer

structure Failure where
  code : Option String
  message : String
  deriving DecidableEq

def throttlingCodes : List String :=
  ["ProvisionedThroughputExceededException", "ThrottlingException", "RequestLimitExceeded"]

def Failure.error (failure : Failure) : Error :=
  match failure.code with
  | none => .request failure.message
  | some code =>
    if code = "ConditionalCheckFailedException" then .conditionalCheckFailed failure.message
    else if code = "ResourceNotFoundException" then .resourceNotFound failure.message
    else if code ∈ throttlingCodes then .throttled failure.message
    else .request failure.message

def Client (σ : Type) := (call : Call) → σ → Except Failure call.Answer × σ

def listed {α : Type} (tables : Option (SortedMap String (List α))) (table : String) : List α :=
  (tables.bind (·.get? table)).getD []

def nonEmpty (item : Option Item) : Option Item := item.filter fun item => !item.isEmpty

structure Calling (α : Type) where
  call : Call
  reply : call.Answer → α

def PageAnswer.page (answer : PageAnswer) : Page :=
  ⟨answer.items.getD [], nonEmpty answer.lastKey⟩

def Read.calling (read : Read) : Except Error (Calling Page) := do
  let limit ← read.limit.mapM (Count.ofNat "limit")
  let page : PageCall :=
    ⟨read.table, read.index, read.filter, read.placeholders, read.start, limit⟩
  match read.scope with
  | .query keyCondition forward =>
    return ⟨.query page keyCondition forward, PageAnswer.page⟩
  | .segment number total =>
    let number ← Count.ofNat "segment" number
    let total ← Count.ofNat "total segments" total
    return ⟨.scan page number total, PageAnswer.page⟩

def Request.calling : (request : Request) → Except Error (Calling request.Reply)
  | .get table key => .ok ⟨.getItem table key, nonEmpty⟩
  | .put request => .ok ⟨.putItem request, id⟩
  | .writeBatch table entries =>
    .ok ⟨.batchWriteItem [(table, entries.map .ofEntry)], fun unprocessed =>
      (listed unprocessed table).filterMap WriteCall.write?⟩
  | .getBatch table keys =>
    .ok ⟨.batchGetItem [(table, keys)], fun answer =>
      ⟨listed answer.responses table, listed answer.unprocessed table⟩⟩
  | .read request => request.calling

def Store.ofClient {σ : Type} (client : Client σ) (horizon : σ → Nat) : Store σ where
  answer request s :=
    match request.calling with
    | .error error => (.error error, s)
    | .ok calling =>
      let answered := client calling.call s
      ((answered.1.mapError Failure.error).map calling.reply, answered.2)
  horizon

end KeyedTable
