import Reshape.Command.Run

/-!
# The command line

Runs a command on the files of the machine.
-/

namespace Reshape.Command

/-- A failed access to a file, as a command reports it. -/
def fileError : IO.Error → FileError
  | .noFileOrDirectory .. => .notFound
  | .inappropriateType _ 21 _ => .isADirectory
  | .inappropriateType .. => .notADirectory
  | .invalidArgument _ 22 _ => .zeroByte
  | .invalidArgument .. => .nameTooLong
  | e => .other (toString e)

/-- Access to the files of the machine. -/
def machine : Host IO where
  read name := do
    try
      return .ok (← IO.FS.readBinFile name).toList
    catch e => return .error (fileError e)
  write name text := do
    try
      IO.FS.writeFile name text
      return .ok ()
    catch e => return .error (fileError e)

end Reshape.Command

/-- Runs the command and passes its outputs on. -/
def main (args : List String) : IO UInt32 := do
  let outcome ← Reshape.Command.run Reshape.Command.machine args
  (← IO.getStdout).putStr outcome.output
  (← IO.getStderr).putStr outcome.errors
  return outcome.exitCode.toUInt32
