import KeyedTable.Condition.Token

namespace KeyedTable

namespace Parser

inductive PathUse
  | predicate
  | presence (test : Presence)
  | feature (test : Feature)
  | size
  deriving DecidableEq, Repr

inductive LiteralUse
  | compare (path : Path) (comparator : Comparator)
  | low (path : Path)
  | high (path : Path) (low : Literal)
  | firstOf (path : Path)
  | nextOf (path : Path) (first : Literal) (others : List Literal)
  | argument (test : Feature) (path : Path)
  | size (path : Path) (comparator : Comparator)
  deriving DecidableEq, Repr

inductive Spot
  | term
  | name (name : String)
  | segment (use : PathUse) (before : Option Path)
  | path (use : PathUse) (path : Path)
  | literal (use : LiteralUse)
  | lowRead (path : Path) (low : Literal)
  | amongRead (path : Path)
  | elementRead (path : Path) (first : Literal) (others : List Literal)
  | argumentRead (test : Feature) (path : Path) (argument : Literal)
  | sizeRead (path : Path)
  | joined (left : Condition)
  deriving DecidableEq, Repr

abbrev Pending := Option (Condition × Connective)

def attach (pending : Pending) (term : Condition) : Condition :=
  match pending with
  | none => term
  | some (left, connective) => .join connective left term

structure State where
  pending : Pending
  groups : List Pending
  spot : Spot
  deriving DecidableEq, Repr

namespace State

def start : State := ⟨none, [], .term⟩

def moveTo (s : State) (spot : Spot) : State := { s with spot }

def complete (s : State) (term : Condition) : State :=
  ⟨none, s.groups, .joined (attach s.pending term)⟩

def expected (s : State) : String :=
  match s.spot with
  | .term | .segment _ _ => "attribute name"
  | .name _ | .path .predicate _ => "comparator, between or in"
  | .path (.feature _) _ => Token.comma.describe
  | .path (.presence _) _ | .path .size _ | .elementRead _ _ _ | .argumentRead _ _ _ =>
    Token.rparen.describe
  | .literal _ => "literal"
  | .lowRead _ _ => (Token.keyword .and).describe
  | .amongRead _ => Token.lparen.describe
  | .sizeRead _ => "comparator"
  | .joined _ => if s.groups.isEmpty then "and, or or end of input" else Token.rparen.describe

end State

end Parser

end KeyedTable
