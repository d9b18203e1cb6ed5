import ChatText.Command.Run
import ChatText.Registry.Standard

/-!
# The command-line program

The outer layer: it lends the files of the machine to the command and prints what comes out.
-/

namespace ChatText

namespace Command

/-- The number of an error as the system counts it; some actions report it negated. -/
def systemNumber (code : UInt32) : UInt32 := if code < 0x80000000 then code else 0 - code

/-- The cause that stands for an error of the machine. -/
def causeOfError (e : IO.Error) : FileError :=
  match e with
  | .noFileOrDirectory .. => .notFound
  | .inappropriateType _ code _ | .invalidArgument _ code _ =>
    if systemNumber code = 20 then .notDirectory
    else if systemNumber code = 21 then .isDirectory
    else if systemNumber code = 36 then .nameTooLong
    else .other (toString e).toList
  | e => .other (toString e).toList

/-- The result of an action, its errors as causes. -/
def tryFile {α : Type} (act : IO α) : IO (Except FileError α) := do
  try return .ok (← act) catch e => return .error (causeOfError e)

/-- The files of the machine. -/
def machineFiles : Files IO where
  read path := tryFile (IO.FS.readBinFile (String.ofList path))
  write path bytes := tryFile (IO.FS.writeBinFile (String.ofList path) bytes)
  input := tryFile do (← IO.getStdin).readBinToEnd

end Command

end ChatText

open ChatText Command in
/-- Runs the command and ends with its exit code. -/
def main (arguments : List String) : IO UInt32 := do
  let outcome ← run machineFiles Registry.standard (arguments.map String.toList)
  (← IO.getStdout).putStr (String.ofList outcome.stdout)
  (← IO.getStderr).putStr (String.ofList outcome.stderr)
  return outcome.exitCode.toUInt32
