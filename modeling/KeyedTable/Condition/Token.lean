import KeyedTable.Condition.Basic

namespace KeyedTable

inductive Keyword
  | and
  | or
  | between
  | among
  deriving DecidableEq, Repr, Inhabited

def Keyword.spelling : Keyword → String
  | .and => "and"
  | .or => "or"
  | .between => "between"
  | .among => "in"

def Connective.keyword : Connective → Keyword
  | .and => .and
  | .or => .or

def Connective.spelling (connective : Connective) : String := connective.keyword.spelling

def Literal.spelling : Literal → String
  | .string text => "\"" ++ text ++ "\""
  | .boolean value => toString value
  | .number text => text

inductive Token
  | identifier (name : String)
  | literal (value : Literal)
  | keyword (word : Keyword)
  | comparator (sign : Comparator)
  | dot
  | comma
  | lparen
  | rparen
  deriving DecidableEq, Repr, Inhabited

namespace Token

def spelling : Token → String
  | .identifier name => name
  | .literal value => value.spelling
  | .keyword word => word.spelling
  | .comparator sign => sign.spelling
  | .dot => "."
  | .comma => ","
  | .lparen => "("
  | .rparen => ")"

def describe : Token → String
  | .identifier name => "identifier '" ++ name ++ "'"
  | .literal (.string text) => "string " ++ (Literal.string text).spelling
  | .literal (.number text) => "number " ++ text
  | .literal (.boolean value) => (Literal.boolean value).spelling
  | .keyword word => word.spelling
  | token => "'" ++ token.spelling ++ "'"

def describe? : Option Token → String
  | some token => token.describe
  | none => "end of input"

def ofWord (word : String) : Token :=
  if word == "true" then .literal (.boolean true)
  else if word == "false" then .literal (.boolean false)
  else match FunctionName.lowercase word with
    | "and" => .keyword .and
    | "or" => .keyword .or
    | "between" => .keyword .between
    | "in" => .keyword .among
    | _ => .identifier word

end Token

inductive ExpressionFault
  | unexpectedToken (expected found : String)
  | invalidCharacter (c : Char)
  | unterminatedString
  | unknownFunction (name : String)
  | missingExpression (role : String)
  deriving DecidableEq, Repr, Inhabited

def ExpressionFault.message : ExpressionFault → String
  | .unexpectedToken expected found => s!"unexpected token: expected {expected}, found {found}"
  | .invalidCharacter c => "invalid character '" ++ String.singleton c ++ "'"
  | .unterminatedString => "unterminated string literal"
  | .unknownFunction name => "unknown function '" ++ name ++ "'"
  | .missingExpression role => s!"{role} expression cannot be empty"

end KeyedTable
