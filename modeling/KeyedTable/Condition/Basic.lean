namespace KeyedTable

structure Path where
  first : String
  rest : List String
  deriving DecidableEq, Repr, Inhabited

def Path.segments (path : Path) : List String := path.first :: path.rest

inductive Literal
  | string (text : String)
  | boolean (value : Bool)
  | number (text : String)
  deriving DecidableEq, Repr, Inhabited

inductive Comparator
  | equal
  | unequal
  | less
  | atMost
  | greater
  | atLeast
  deriving DecidableEq, Repr, Inhabited

def Comparator.spelling : Comparator → String
  | .equal => "="
  | .unequal => "<>"
  | .less => "<"
  | .atMost => "<="
  | .greater => ">"
  | .atLeast => ">="

inductive Connective
  | and
  | or
  deriving DecidableEq, Repr, Inhabited

inductive Presence
  | exists
  | notExists
  deriving DecidableEq, Repr, Inhabited

inductive Feature
  | hasType
  | beginsWith
  | contains
  deriving DecidableEq, Repr, Inhabited

inductive FunctionName
  | presence (test : Presence)
  | feature (test : Feature)
  | size
  deriving DecidableEq, Repr, Inhabited

namespace FunctionName

def spelling : FunctionName → String
  | .presence .exists => "attribute_exists"
  | .presence .notExists => "attribute_not_exists"
  | .feature .hasType => "attribute_type"
  | .feature .beginsWith => "begins_with"
  | .feature .contains => "contains"
  | .size => "size"

def all : List FunctionName :=
  [.presence .exists, .presence .notExists, .feature .hasType, .feature .beginsWith,
    .feature .contains, .size]

def lowercase (name : String) : String := String.ofList (name.toList.map Char.toLower)

def ofIdentifier? (name : String) : Option FunctionName :=
  all.find? fun function => function.spelling == lowercase name

def takesArgument : FunctionName → Bool
  | .feature _ => true
  | _ => false

end FunctionName

inductive Condition
  | compare (path : Path) (comparator : Comparator) (value : Literal)
  | between (path : Path) (low high : Literal)
  | among (path : Path) (first : Literal) (others : List Literal)
  | presence (test : Presence) (path : Path)
  | feature (test : Feature) (path : Path) (argument : Literal)
  | size (path : Path) (comparator : Comparator) (value : Literal)
  | join (connective : Connective) (left right : Condition)
  | group (inner : Condition)
  deriving DecidableEq, Repr, Inhabited

namespace Condition

def segments : Condition → List String
  | .compare path _ _ | .between path _ _ | .among path _ _ | .presence _ path
  | .feature _ path _ | .size path _ _ => path.segments
  | .join _ left right => left.segments ++ right.segments
  | .group inner => inner.segments

def literals : Condition → List Literal
  | .compare _ _ value | .size _ _ value => [value]
  | .between _ low high => [low, high]
  | .among _ first others => first :: others
  | .presence _ _ => []
  | .feature _ _ argument => [argument]
  | .join _ left right => left.literals ++ right.literals
  | .group inner => inner.literals

end Condition

end KeyedTable
