import KeyedTable.Item

namespace KeyedTable

structure KeySchema where
  partitionKey : String
  sortKey : Option String
  deriving DecidableEq, Repr, Inhabited

namespace KeySchema

def names (schema : KeySchema) : List String := schema.partitionKey :: schema.sortKey.toList

def contains (schema : KeySchema) (name : String) : Bool := schema.names.contains name

@[simp] theorem contains_iff (schema : KeySchema) (name : String) :
    schema.contains name ↔ name ∈ schema.names := List.contains_iff_mem

def coveredBy (schema : KeySchema) (item : Item) : Bool := schema.names.all item.contains

end KeySchema

structure Table where
  name : String
  primaryKey : KeySchema
  indexes : SortedMap String KeySchema
  deriving DecidableEq, Inhabited

namespace Table

def new (name : String) (primaryKey : KeySchema) : Table := ⟨name, primaryKey, .empty⟩

def withIndex (table : Table) (index : String × KeySchema) : Table :=
  { table with indexes := table.indexes.insert index.1 index.2 }

def withIndexes (table : Table) (indexes : List (String × KeySchema)) : Table :=
  indexes.foldl withIndex table

theorem indexes_withIndexes (table : Table) (indexes : List (String × KeySchema)) :
    (table.withIndexes indexes).indexes =
      indexes.foldl (fun m index => m.insert index.1 index.2) table.indexes := by
  induction indexes generalizing table with
  | nil => rfl
  | cons index indexes ih => exact ih (table.withIndex index)

def keyOf (table : Table) (item : Item) : Item := item.restrict table.primaryKey.contains

def isKeyName (table : Table) (name : String) : Bool :=
  table.primaryKey.contains name || table.indexes.values.any (·.contains name)

def allKeysOf (table : Table) (item : Item) : Item := item.restrict table.isKeyName

def cursor (table : Table) (index : Option String) (item : Item) : Item :=
  match index with
  | some _ => table.allKeysOf item
  | none => table.keyOf item

@[simp] theorem get?_keyOf (table : Table) (item : Item) (name : String) :
    (table.keyOf item).get? name =
      if table.primaryKey.contains name then item.get? name else none :=
  SortedMap.get?_restrict ..

@[simp] theorem get?_allKeysOf (table : Table) (item : Item) (name : String) :
    (table.allKeysOf item).get? name = if table.isKeyName name then item.get? name else none :=
  SortedMap.get?_restrict ..

end Table

end KeyedTable
