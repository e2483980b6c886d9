import DualStore.Command.Run
import DualStore.Config
import DualStore.Index.Memory
import Std.Time.Format

/-! The command line. Spaces live as long as the process. An index on a server cannot be reached from
here: its calls fail, so that what it misses is recorded. -/

namespace DualStore

/-- The content of a file, or of the standard input. -/
private def readFileOrInput (file : String) : IO (Except String String) := do
  try
    if file = "-" then return .ok (← (← IO.getStdin).readToEnd)
    else return .ok (← IO.FS.readFile file)
  catch e => return .error (toString e)

private def loadConfig : Option String → IO Config
  | none => return {}
  | some file => do
    match ← readFileOrInput file with
    | .error reason => throw (IO.userError s!"unable to read config {file}: {reason}")
    | .ok text => match Config.ofText? text with
      | some config => return config
      | none => throw (IO.userError s!"invalid config {file}")

/-- A service without spaces. -/
def Config.service (c : Config) : Service MemoryIndex where
  side := ⟨{ available := c.kind = .memory }, 0⟩
  settings := c.settings

private def runCommand (config : Config) (command : Command) : IO UInt32 := do
  let content ← match command.file? with
    | some file => readFileOrInput file
    | none => pure (.ok "")
  let now := (Std.Time.DateTime.ofTimestampWithZone (← Std.Time.Timestamp.now) .GMT).toISO8601String
  let ((printed, result), _) := command.run (fun _ => content) now config.service
  if let some printed := printed then
    IO.print printed.text
  match result with
  | .ok () => return 0
  | .error fault =>
    IO.eprintln s!"Error: {fault.message}"
    return 1

/-- Runs one command line. -/
def runArguments (args : List String) : IO UInt32 := do
  match Command.ofArguments args with
  | .error .help =>
    IO.print CommandForm.usage
    return 0
  | .error fault =>
    IO.eprintln fault.message
    return 2
  | .ok (file?, command) => runCommand (← loadConfig file?) command

end DualStore

def main (args : List String) : IO UInt32 := DualStore.runArguments args
