import KeyedTable.Error
import KeyedTable.LogLevel

namespace KeyedTable

inductive Notice
  | retrying (error : Error) (delay attempt retries : Nat)
  | lookedUp (table : String) (found : Bool)
  | added (table : String)
  | wroteBatch (count : Nat) (table : String)
  | gotBatch (count : Nat) (table : String)
  deriving DecidableEq

def durationText (milliseconds : Nat) : String :=
  if milliseconds = 0 then "0ns"
  else if milliseconds < 1000 then toString milliseconds ++ "ms"
  else
    let padded := Nat.toDigits 10 (milliseconds % 1000 + 1000)
    let fraction := ((padded.drop 1).reverse.dropWhile (· = '0')).reverse
    toString (milliseconds / 1000) ++
      (if fraction.isEmpty then "" else "." ++ String.ofList fraction) ++ "s"

namespace Notice

def level : Notice → LogLevel
  | .retrying _ _ _ _ => .warn
  | _ => .info

def text : Notice → String
  | .retrying error delay attempt retries =>
    s!"Request throttled: {error.message}. Retrying in {durationText delay} " ++
      s!"(attempt {attempt}/{retries})"
  | .lookedUp table found =>
    "Item lookup in '" ++ table ++ "' " ++ if found then "found a match" else "found nothing"
  | .added table => "Item added to '" ++ table ++ "'"
  | .wroteBatch count table =>
    s!"Batch write of {count} requests completed on '" ++ table ++ "'"
  | .gotBatch count table => s!"Batch get returned {count} items from '" ++ table ++ "'"

end Notice

end KeyedTable
