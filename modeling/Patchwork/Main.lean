import Patchwork.Command
import Patchwork.Directory
import Patchwork.Plain.Written

/-!
# The command line

Carries out the arguments of the command line in a directory that is described
on the standard input.  The answer is printed first, and after it the directory
as it is then.
-/

namespace Patchwork

/-- All lines of a stream. -/
partial def readAll (stream : IO.FS.Stream) (before : String) : IO String := do
  let line ← stream.getLine
  if line.isEmpty then return before else readAll stream (before ++ line)

end Patchwork

open Patchwork in
/-- Carries out the arguments; gives the exit code. -/
def main (arguments : List String) : IO UInt32 := do
  let input ← readAll (← IO.getStdin) ""
  let described := (Plain.ofWritten? input).getD (.mapping [])
  let overrides ← Settings.overrideNames.filterMapM fun (name, _) => do
    return (← IO.getEnv name).map fun value => (name, value)
  let workspace : Workspace := { directory := .ofPlain described, overrides := overrides }
  match ((Command.perform (.ofArguments arguments)).run workspace).run with
  | (.error fault, _) =>
    IO.eprintln fault.message
    return 1
  | (.ok answer, after) =>
    answer.complaints.forM fun text => IO.eprintln text
    answer.output.forM fun text => IO.println text
    IO.println after.directory.toPlain.written
    return UInt32.ofNat answer.code
