import KeyedTable.RetryPolicy
import KeyedTable.Text.Blank

namespace KeyedTable

structure Settings where
  table : Table
  retry : RetryPolicy

namespace Settings

def readIndex (entry : String) : Except Error (String × KeySchema) :=
  match (Text.split entry ':').map Text.trim with
  | [name, partition] =>
    if name.isEmpty || partition.isEmpty then .error (.invalidArgument (.indexEntry entry))
    else .ok (name, ⟨partition, none⟩)
  | [name, partition, sort] =>
    if name.isEmpty || partition.isEmpty || sort.isEmpty then
      .error (.invalidArgument (.indexEntry entry))
    else .ok (name, ⟨partition, some sort⟩)
  | _ => .error (.invalidArgument (.indexEntry entry))

def readIndexes (text : String) : Except Error (List (String × KeySchema)) :=
  (((Text.split text ',').map Text.trim).filter (!·.isEmpty)).mapM readIndex

def readNumber (lookup : String → Option String) (name : String) (standard : Nat) :
    Except Error Nat :=
  match lookup name with
  | none => .ok standard
  | some value =>
    (Decimal.readCount (Text.trim value)).mapError fun _ => .invalidArgument (.setting name value)

def names : List String :=
  ["DYNAMODB_TABLE", "DYNAMODB_PARTITION_KEY", "DYNAMODB_SORT_KEY", "DYNAMODB_INDEXES",
    "DYNAMODB_MAX_RETRIES", "DYNAMODB_RETRY_DELAY_MS"]

def read (lookup : String → Option String) : Except Error Settings := do
  let name := (lookup "DYNAMODB_TABLE").getD "testing-products"
  let partition := (lookup "DYNAMODB_PARTITION_KEY").getD "category"
  let sort := Text.trim ((lookup "DYNAMODB_SORT_KEY").getD "product_name")
  let schema : KeySchema := ⟨partition, if sort.isEmpty then none else some sort⟩
  let indexes ← readIndexes ((lookup "DYNAMODB_INDEXES").getD "")
  let retries ← readNumber lookup "DYNAMODB_MAX_RETRIES" RetryPolicy.standard.maxRetries
  let delay ← readNumber lookup "DYNAMODB_RETRY_DELAY_MS" RetryPolicy.standard.delay
  return ⟨(Table.new name schema).withIndexes indexes, ⟨retries, delay⟩⟩

end Settings

end KeyedTable
