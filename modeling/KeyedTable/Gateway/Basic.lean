import KeyedTable.RetryPolicy

namespace KeyedTable

structure Gateway (σ : Type) where
  store : Store σ
  table : Table
  retry : RetryPolicy
  visit : Delivery → σ → σ

def filterExpression (text : Option String) (previous : Option Compiled) :
    Except Error (Option Compiled) :=
  (compileFilter text previous).mapError .expression

def placeholdersOf (compiled : Option Compiled) : Placeholders :=
  (compiled.map Compiled.placeholders).getD .empty

namespace Gateway

variable {σ : Type}

def submit (g : Gateway σ) (request : Request) : Action σ request.Reply :=
  g.retry.run (Action.ask g.store request)

def get (g : Gateway σ) (key : Item) : Action σ (Option Item) := do
  let item ← g.submit (.get g.table.name (g.table.keyOf key))
  Action.note (.logged (.lookedUp g.table.name item.isSome))
  return item

def putRequest (g : Gateway σ) (item : Item) (condition : Option String) : Except Error Put := do
  let compiled ← filterExpression condition none
  return ⟨g.table.name, item, compiled.map Compiled.expression, placeholdersOf compiled⟩

def put (g : Gateway σ) (item : Item) (condition : Option String) : Action σ Unit := do
  let put ← Action.ofExcept (g.putRequest item condition)
  g.submit (.put put)
  Action.note (.logged (.added g.table.name))

end Gateway

end KeyedTable
