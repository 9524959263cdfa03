import KeyedTable.CommandLine.Menu

namespace KeyedTable

inductive Ending
  | exited
  /-- As many commands as were granted have been asked for, none of them `exit`. -/
  | open
  deriving DecidableEq, Repr

namespace Gateway

variable {σ : Type}

def commandQuestion : String :=
  Command.question
    "Enter command (info/put/get/delete/batch_put/query/scan/parallel_scan/compile/exit)" none

def obey (g : Gateway σ) (name : String) : σ → Dialogue σ := fun s =>
  match g.command? name with
  | none => .tell (.text "Unknown command. Please try again.\n") (.done s)
  | some command =>
    (command s).bind fun
      | (.ok _, t) => .done t
      | (.error complaint, t) =>
        .tell (.log .error (name ++ " failed: " ++ complaint.message)) (.done t)

def commands (g : Gateway σ) : Nat → σ → Dialogue (Ending × σ)
  | 0, s => .done (.open, s)
  | n + 1, s => .ask commandQuestion fun line =>
    let name := Text.trim line
    if name = "exit" then .done (.exited, s) else (g.obey name s).bind (g.commands n)

/-- Takes commands from the lines. A command takes a line as long as there is one, so after one
more command than there are lines the input has ended. -/
def converse (g : Gateway σ) (lines : List String) (s : σ) : Dialogue.Held (Ending × σ) :=
  (g.commands (lines.length + 1) s).hold lines

end Gateway

end KeyedTable
