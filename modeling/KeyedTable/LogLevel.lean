import KeyedTable.Decimal.Integer
import KeyedTable.Text.Blank

namespace KeyedTable

inductive LogLevel
  | error
  | warn
  | info
  | debug
  | trace
  deriving DecidableEq, Repr, Inhabited

namespace LogLevel

def name : LogLevel → String
  | .error => "ERROR"
  | .warn => "WARN"
  | .info => "INFO"
  | .debug => "DEBUG"
  | .trace => "TRACE"

def rank : LogLevel → Nat
  | .error => 1
  | .warn => 2
  | .info => 3
  | .debug => 4
  | .trace => 5

def all : List LogLevel := [.error, .warn, .info, .debug, .trace]

def uppercase (text : String) : String := String.ofList (text.toList.map Char.toUpper)

def read? (text : String) : Option LogLevel :=
  match Decimal.readCount text with
  | .ok n => if n = 0 then none else all[n - 1]?
  | .error _ => all.find? fun level => level.name == uppercase text

def ofSetting (value : Option String) : LogLevel :=
  (value.bind fun text => read? (Text.trim text)).getD .info

end LogLevel

end KeyedTable
