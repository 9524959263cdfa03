import KeyedTable.Condition.Parser
import KeyedTable.Text.Blank
import KeyedTable.Value

namespace KeyedTable

def Literal.toValue : Literal → AttributeValue
  | .string text => .string text
  | .boolean value => .boolean value
  | .number text => .number text

def AttributeValue.literal? : AttributeValue → Option Literal
  | .string text => some (.string text)
  | .boolean value => some (.boolean value)
  | .number text => some (.number text)
  | _ => none

@[simp] theorem AttributeValue.literal?_toValue (literal : Literal) :
    literal.toValue.literal? = some literal := by cases literal <;> rfl

structure Placeholders where
  names : SortedMap String String
  values : SortedMap String AttributeValue
  deriving DecidableEq, Inhabited

namespace Placeholders

def empty : Placeholders := ⟨.empty, .empty⟩

def nameOf (segment : String) : String := "#" ++ segment

def valueOf (index : Nat) : String := ":" ++ toString index

end Placeholders

structure Compiled where
  expression : String
  placeholders : Placeholders
  next : Nat
  deriving DecidableEq, Inhabited

structure Emitter where
  text : String
  /-- No space goes before the next token. -/
  glue : Bool
  placeholders : Placeholders
  next : Nat

namespace Emitter

def start (previous : Option Compiled) : Emitter where
  text := ""
  glue := true
  placeholders := (previous.map Compiled.placeholders).getD .empty
  next := (previous.map Compiled.next).getD 1

def attaches (token : String) : Bool :=
  token.toList.head?.any fun c => c == ')' || c == ',' || c == '.'

def leavesGlue (token : String) : Bool :=
  token.toList.getLast?.any fun c => c == '(' || c == '.'

def token (e : Emitter) (token : String) : Emitter :=
  { e with
    text := (if e.glue || attaches token then e.text else e.text ++ " ") ++ token
    glue := leavesGlue token }

def function (e : Emitter) (name : FunctionName) : Emitter :=
  { e.token name.spelling with glue := true }

def segment (e : Emitter) (segment : String) : Emitter :=
  let placeholder := Placeholders.nameOf segment
  let names := e.placeholders.names.insert placeholder segment
  Emitter.token { e with placeholders := { e.placeholders with names } } placeholder

def path (e : Emitter) (path : Path) : Emitter :=
  path.rest.foldl (fun e segment => (e.token ".").segment segment) (e.segment path.first)

def literal (e : Emitter) (literal : Literal) : Emitter :=
  let placeholder := Placeholders.valueOf e.next
  let values := e.placeholders.values.insert placeholder literal.toValue
  Emitter.token { e with placeholders := { e.placeholders with values }, next := e.next + 1 }
    placeholder

def elements (e : Emitter) (values : List Literal) : Emitter :=
  values.foldl (fun e value => (e.token ",").literal value) e

def condition (e : Emitter) : Condition → Emitter
  | .compare path comparator value => ((e.path path).token comparator.spelling).literal value
  | .between path low high =>
    let lower := ((e.path path).token (Keyword.spelling .between)).literal low
    (lower.token (Keyword.spelling .and)).literal high
  | .among path first others =>
    let opened := ((e.path path).token (Keyword.spelling .among)).token "("
    ((opened.literal first).elements others).token ")"
  | .presence test path => (((e.function (.presence test)).token "(").path path).token ")"
  | .feature test path argument =>
    let call := ((e.function (.feature test)).token "(").path path
    ((call.token ",").literal argument).token ")"
  | .size path comparator value =>
    let call := (((e.function .size).token "(").path path).token ")"
    (call.token comparator.spelling).literal value
  | .join connective left right =>
    ((e.condition left).token connective.spelling).condition right
  | .group inner => ((e.token "(").condition inner).token ")"

def finish (e : Emitter) : Compiled := ⟨e.text, e.placeholders, e.next⟩

end Emitter

def Condition.compile (condition : Condition) (previous : Option Compiled) : Compiled :=
  ((Emitter.start previous).condition condition).finish

def isBlankText (text : String) : Bool := text.toList.all Text.isBlank

def compileFilter (text : Option String) (previous : Option Compiled) :
    Except ExpressionFault (Option Compiled) :=
  match text with
  | none => .ok none
  | some text =>
    if isBlankText text then .ok none
    else (Condition.parse text).map fun condition => some (condition.compile previous)

def compileKey (text : String) (previous : Option Compiled) : Except ExpressionFault Compiled :=
  if isBlankText text then .error (.missingExpression "key")
  else (Condition.parse text).map fun condition => condition.compile previous

end KeyedTable
