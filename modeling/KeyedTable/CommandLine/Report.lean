import KeyedTable.Action
import KeyedTable.Item.Json
import KeyedTable.Json.Basic

namespace KeyedTable.Report

def itemText (item : Item) : String :=
  match item.toJson with
  | .ok data => data.write
  | .error _ => item.display

def titled (title : String) (lines : List String) : List String :=
  ("\n--- " ++ title ++ " ---") :: lines ++
    [String.ofList (List.replicate (title.utf8ByteSize + 8) '-')]

def pageLines (title : String) (page : Delivery) : List String :=
  titled title (page.items.map itemText)

def describeTable (table : Table) : List String :=
  ["\n--- Table Information ---", "Table Name: " ++ table.name,
    "Partition Key: " ++ table.primaryKey.partitionKey] ++
  (table.primaryKey.sortKey.map ("Sort Key: " ++ ·)).toList ++
  (if table.indexes.isEmpty then []
   else "Indexes:" :: table.indexes.entries.map fun index =>
     "  " ++ index.1 ++ ": " ++ String.intercalate ", " index.2.names) ++
  ["-------------------------\n"]

def describeCompiled (compiled : Compiled) : List String :=
  ["\n--- Compiled Expression ---", "Expression: " ++ compiled.expression] ++
  (compiled.placeholders.names.entries.map fun e => "  " ++ e.1 ++ " => " ++ e.2) ++
  (compiled.placeholders.values.entries.map fun e => "  " ++ e.1 ++ " => " ++ e.2.display) ++
  ["---------------------------\n"]

def numbered (title : String) (number : Nat) (page : Delivery) : List String :=
  pageLines s!"{title} (Page {number})" page

def segmentLines (page : Delivery) : List String :=
  pageLines s!"Segment {page.segment} Results" page

end KeyedTable.Report
