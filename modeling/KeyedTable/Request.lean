import KeyedTable.Condition.Placeholder
import KeyedTable.Error
import KeyedTable.Table

namespace KeyedTable

inductive WriteEntry
  | put (item : Item)
  | delete (key : Item)
  deriving DecidableEq

structure Put where
  table : String
  item : Item
  condition : Option String
  placeholders : Placeholders
  deriving DecidableEq

inductive Scope
  | query (keyCondition : String) (forward : Bool)
  | segment (number total : Nat)
  deriving DecidableEq, Repr

namespace Scope

def segmentNumber : Scope → Nat
  | .query _ _ => 0
  | .segment number _ => number

def isForward : Scope → Bool
  | .query _ forward => forward
  | .segment _ _ => true

end Scope

structure Read where
  table : String
  index : Option String
  scope : Scope
  filter : Option String
  placeholders : Placeholders
  start : Option Item
  limit : Option Nat
  deriving DecidableEq

structure Page where
  items : List Item
  lastKey : Option Item
  deriving DecidableEq

structure Found where
  items : List Item
  unprocessed : List Item
  deriving DecidableEq

inductive Request
  | get (table : String) (key : Item)
  | put (put : Put)
  | writeBatch (table : String) (entries : List WriteEntry)
  | getBatch (table : String) (keys : List Item)
  | read (read : Read)
  deriving DecidableEq

def writeBatchSize : Nat := 25

def getBatchSize : Nat := 100

def Request.table : Request → String
  | .get table _ | .writeBatch table _ | .getBatch table _ => table
  | .put p => p.table
  | .read r => r.table

@[reducible] def Request.Reply : Request → Type
  | .get _ _ => Option Item
  | .put _ => Unit
  | .writeBatch _ _ => List WriteEntry
  | .getBatch _ _ => Found
  | .read _ => Page

/-- A store with states `σ`. No more than `horizon` replies in a row ask for another request
without giving back fewer entries than they got. -/
structure Store (σ : Type) where
  answer : (request : Request) → σ → Except Error request.Reply × σ
  horizon : σ → Nat

def Store.beside {σ : Type} (store : Store σ) (τ : Type) : Store (σ × τ) where
  answer request s := ((store.answer request s.1).1, ((store.answer request s.1).2, s.2))
  horizon s := store.horizon s.1

end KeyedTable
