import PortableSql.CommandLine.Program
import Std.Time.Zoned

/-!
The command line: takes the arguments, the environment, the files and the clock from the system, and hands
back what the program puts out.
-/
namespace PortableSql.CommandLine

open Calendar

/-- The variables of the environment that matter to the program. -/
def variableNames : List String :=
  ["AFDIALECT_DIALECT", "AFDIALECT_CONFIG", "XDG_CONFIG_HOME", "HOME"]

def readVariables : IO (List (String × String)) :=
  variableNames.filterMapM fun name => do
    return (← IO.getEnv name).map fun value => (name, value)

/-- The text of a file, or why it cannot be read. -/
def readFile (path : String) : IO (Except Configuration.FileError String) := do
  try
    return .ok (← IO.FS.readFile path)
  catch
    | .noFileOrDirectory .. => return .error .missing
    | e => return .error ⟨toString e⟩

/-- The local time. -/
def readClock : IO DateTime := do
  let t ← Std.Time.PlainDateTime.now
  let date := Date.of? t.date.year.toInt t.date.month.val.toNat t.date.day.val.toNat
  let time := Time.of? t.time.hour.val.toNat t.time.minute.val.toNat
    (min 59 t.time.second.val.toNat) t.time.nanosecond.val.toNat
  match date, time with
  | some date, some time => return ⟨date, time⟩
  | _, _ => throw (IO.userError "the clock shows no time of the calendar")

end PortableSql.CommandLine

open PortableSql.CommandLine

def main (args : List String) : IO UInt32 := do
  let values ← readVariables
  let environment (name : String) : Option String := values.lookup name
  let texts ← (neededFiles environment args).mapM fun path => do return (path, ← readFile path)
  let files (path : String) := (texts.lookup path).getD (.error .missing)
  let input ← if needsInput environment args then (← IO.getStdin).readToEnd else pure ""
  let outcome := run ⟨environment, files, input, ← readClock⟩ args
  IO.print outcome.output
  IO.eprint outcome.diagnostics
  return outcome.status.toUInt32
