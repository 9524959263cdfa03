import KeyedTable.Condition.Token
import KeyedTable.Decimal.Integer

namespace KeyedTable

inductive Misuse
  | zeroLimit
  | noSegments
  | cursorCount (cursors segments : Nat)
  | outOfRange (what : String)
  | setting (name value : String)
  | indexEntry (entry : String)
  | writeCount (n : Nat)
  | keyCount (n : Nat)
  | segment (number total : Nat)
  | keyMismatch
  | notAnObject
  | notANumber (text : String)
  | falseNull
  | binary
  | unknownType
  | other (text : String)
  deriving DecidableEq, Repr

def Misuse.message : Misuse → String
  | .zeroLimit => "limit must be at least 1"
  | .noSegments => "the number of segments must be at least 1"
  | .cursorCount cursors segments =>
    s!"the number of start cursors ({cursors}) must match the number of segments ({segments})"
  | .outOfRange what => s!"{what} out of range"
  | .setting name value => name ++ " must be a number, got '" ++ value ++ "'"
  | .indexEntry entry =>
    "invalid index entry '" ++ entry ++ "', expected name:partition[:sort]"
  | .writeCount n => s!"batch of {n} write requests"
  | .keyCount n => s!"batch of {n} keys"
  | .segment number total => s!"segment {number} of {total}"
  | .keyMismatch => "The provided key element does not match the schema"
  | .notAnObject => "Not a map-like object"
  | .notANumber text =>
    "Failed to parse '" ++ text ++ "' as a float: " ++
      if text.isEmpty then "cannot parse float from empty string" else "invalid float literal"
  | .falseNull => "Expected unit"
  | .binary => "invalid type: byte array, expected any valid JSON value"
  | .unknownType => "unknown attribute type"
  | .other text => text

inductive Error
  | expression (fault : ExpressionFault)
  | invalidArgument (misuse : Misuse)
  | conditionalCheckFailed (detail : String)
  | throttled (detail : String)
  | resourceNotFound (detail : String)
  | request (detail : String)
  deriving DecidableEq, Repr

namespace Error

def message : Error → String
  | .expression fault => "invalid expression: " ++ fault.message
  | .invalidArgument misuse => "invalid argument: " ++ misuse.message
  | .conditionalCheckFailed detail => "conditional check failed: " ++ detail
  | .throttled detail => "throughput exceeded: " ++ detail
  | .resourceNotFound detail => "resource not found: " ++ detail
  | .request detail => "request failed: " ++ detail

def isThrottling : Error → Bool
  | .throttled _ => true
  | _ => false

end Error

end KeyedTable
