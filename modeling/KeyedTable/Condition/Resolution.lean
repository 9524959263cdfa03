import KeyedTable.Condition.Placeholder
import KeyedTable.Error

namespace KeyedTable

namespace Placeholders

def meaning? (placeholders : Placeholders) (placeholder : String) : Option String :=
  if placeholder.toList.head? = some '#' then placeholders.names.get? placeholder
  else
    ((placeholders.values.get? placeholder).bind AttributeValue.literal?).map Literal.spelling

def substitute (placeholders : Placeholders) : List Char → Option (List Char)
  | [] => some []
  | c :: cs =>
    if c = '#' || c = ':' then
      have := Token.length_dropWhile_le Token.continuesWord cs
      do
        let text ← placeholders.meaning? (String.ofList (c :: cs.takeWhile Token.continuesWord))
        let rest ← placeholders.substitute (cs.dropWhile Token.continuesWord)
        some (text.toList ++ rest)
    else (placeholders.substitute cs).map (c :: ·)
termination_by cs => cs.length

def resolve (placeholders : Placeholders) (expression : String) : Except Error Condition :=
  match placeholders.substitute expression.toList with
  | none => .error (.request "undefined placeholder")
  | some text => (Condition.parse (String.ofList text)).mapError .expression

def resolveFilter (placeholders : Placeholders) (filter : Option String) :
    Except Error (Option Condition) :=
  match filter with
  | none => .ok none
  | some expression => (placeholders.resolve expression).map some

end Placeholders

end KeyedTable
