import KeyedTable.Decimal.Double
import KeyedTable.Value

namespace KeyedTable

abbrev Item := SortedMap String AttributeValue

namespace Item

def string? (item : Item) (name : String) : Option String :=
  match item.get? name with
  | some (.string text) => some text
  | _ => none

def number? (item : Item) (name : String) : Option Double :=
  match item.get? name with
  | some (.number text) => Double.read? text
  | _ => none

def boolean? (item : Item) (name : String) : Option Bool :=
  match item.get? name with
  | some (.boolean value) => some value
  | _ => none

def display (item : Item) : String :=
  AttributeValue.braced (AttributeValue.displayFields item.entries)

end Item

end KeyedTable
