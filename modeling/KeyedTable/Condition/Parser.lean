import KeyedTable.Condition.Lexer
import KeyedTable.Condition.Parser.State

namespace KeyedTable

namespace Parser

namespace State

def unexpected {α : Type} (s : State) (found : Option Token) : Except ExpressionFault α :=
  .error (.unexpectedToken s.expected (Token.describe? found))

def pathUse : FunctionName → PathUse
  | .presence test => .presence test
  | .feature test => .feature test
  | .size => .size

def append (before : Option Path) (name : String) : Path :=
  match before with
  | none => ⟨name, []⟩
  | some path => ⟨path.first, path.rest ++ [name]⟩

def stepPredicate (s : State) (path : Path) : Token → Except ExpressionFault State
  | .dot => .ok (s.moveTo (.segment .predicate path))
  | .comparator sign => .ok (s.moveTo (.literal (.compare path sign)))
  | .keyword .between => .ok (s.moveTo (.literal (.low path)))
  | .keyword .among => .ok (s.moveTo (.amongRead path))
  | token => s.unexpected token

def stepLiteral (s : State) (value : Literal) : LiteralUse → State
  | .compare path sign => s.complete (.compare path sign value)
  | .low path => s.moveTo (.lowRead path value)
  | .high path low => s.complete (.between path low value)
  | .firstOf path => s.moveTo (.elementRead path value [])
  | .nextOf path first others => s.moveTo (.elementRead path first (others ++ [value]))
  | .argument test path => s.moveTo (.argumentRead test path value)
  | .size path sign => s.complete (.size path sign value)

def stepJoined (s : State) (left : Condition) : Token → Except ExpressionFault State
  | .keyword .and => .ok { s with pending := some (left, .and), spot := .term }
  | .keyword .or => .ok { s with pending := some (left, .or), spot := .term }
  | .rparen =>
    match s.groups with
    | [] => s.unexpected Token.rparen
    | pending :: groups => .ok ⟨none, groups, .joined (attach pending (.group left))⟩
  | token => s.unexpected token

def step (s : State) (token : Token) : Except ExpressionFault State :=
  match s.spot, token with
  | .term, .lparen => .ok ⟨none, s.pending :: s.groups, .term⟩
  | .term, .identifier name => .ok (s.moveTo (.name name))
  | .name name, .lparen =>
    match FunctionName.ofIdentifier? name with
    | none => .error (.unknownFunction name)
    | some function => .ok (s.moveTo (.segment (pathUse function) none))
  | .name name, token => s.stepPredicate ⟨name, []⟩ token
  | .segment use before, .identifier name => .ok (s.moveTo (.path use (append before name)))
  | .path .predicate path, token => s.stepPredicate path token
  | .path use path, .dot => .ok (s.moveTo (.segment use path))
  | .path (.presence test) path, .rparen => .ok (s.complete (.presence test path))
  | .path (.feature test) path, .comma => .ok (s.moveTo (.literal (.argument test path)))
  | .path .size path, .rparen => .ok (s.moveTo (.sizeRead path))
  | .literal use, .literal value => .ok (s.stepLiteral value use)
  | .lowRead path low, .keyword .and => .ok (s.moveTo (.literal (.high path low)))
  | .amongRead path, .lparen => .ok (s.moveTo (.literal (.firstOf path)))
  | .elementRead path first others, .comma =>
    .ok (s.moveTo (.literal (.nextOf path first others)))
  | .elementRead path first others, .rparen => .ok (s.complete (.among path first others))
  | .argumentRead test path argument, .rparen => .ok (s.complete (.feature test path argument))
  | .sizeRead path, .comparator sign => .ok (s.moveTo (.literal (.size path sign)))
  | .joined left, token => s.stepJoined left token
  | _, token => s.unexpected token

def run : State → List Token → Except ExpressionFault State
  | s, [] => .ok s
  | s, token :: tokens => do run (← s.step token) tokens

theorem run_append (s : State) (a b : List Token) :
    s.run (a ++ b) = (s.run a >>= fun t => t.run b) := by
  induction a generalizing s with
  | nil => rfl
  | cons token a ih =>
    simp only [List.cons_append, run]
    cases s.step token with
    | error fault => rfl
    | ok t => exact ih t

def finish (s : State) : Except ExpressionFault Condition :=
  match s.spot, s.groups with
  | .joined condition, [] => .ok condition
  | _, _ => s.unexpected none

end State

end Parser

namespace Condition

def ofTokens (tokens : List Token) : Except ExpressionFault Condition := do
  (← Parser.State.start.run tokens).finish

def parse (text : String) : Except ExpressionFault Condition := do
  ofTokens (← Token.scan text.toList)

end Condition

end KeyedTable
