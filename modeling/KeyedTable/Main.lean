import KeyedTable.CommandLine
import KeyedTable.Settings
import KeyedTable.Store.Memory

namespace KeyedTable

def Output.emit (level : LogLevel) : Output → IO Unit
  | .text s => IO.print s
  | .log severity s =>
    if severity.rank ≤ level.rank then IO.println (severity.name ++ " " ++ s) else pure ()
  | .event (.logged notice) =>
    if notice.level.rank ≤ level.rank then IO.println (notice.level.name ++ " " ++ notice.text)
    else pure ()
  | .event (.waited milliseconds) => IO.sleep milliseconds.toUInt32
  | .event _ => pure ()

def Dialogue.act {α : Type} (level : LogLevel) : Dialogue α → IO α
  | .done value => pure value
  | .tell output rest => do
    output.emit level
    rest.act level
  | .ask question answer => do
    IO.print question
    (← IO.getStdout).flush
    let line ← (← IO.getStdin).getLine
    (answer line).act level

partial def Gateway.serve {σ : Type} (g : Gateway σ) (level : LogLevel) (s : σ) : IO Unit := do
  match ← (g.commands 1 s).act level with
  | (.exited, _) => return ()
  | (.open, t) => g.serve level t

def Settings.gateway (settings : Settings) : Gateway Memory where
  store := .memory
  table := settings.table
  retry := settings.retry
  visit := fun _ m => m

end KeyedTable

open KeyedTable

def main : IO UInt32 := do
  let values ← Settings.names.mapM fun name => return (name, ← IO.getEnv name)
  match Settings.read fun name => (values.lookup name).join with
  | .error error =>
    IO.eprintln ("Error: " ++ error.message)
    return 1
  | .ok settings =>
    settings.gateway.serve (.ofSetting (← IO.getEnv "LOG_LEVEL")) (.new settings.table none [])
    return 0
