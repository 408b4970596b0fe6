/-
The command. Everything it decides is in `Criteria.Command`; here the prompt is shown
before the input is read, and the report is written out.
-/
import Criteria.Command.Run

set_option autoImplicit false

namespace Criteria.Command

/-- Reads bytes up to the first line feed or the end of the input. -/
partial def readInput (stream : IO.FS.Stream) (read : List UInt8) : IO (List UInt8) := do
  let chunk ← stream.read 1
  if chunk.isEmpty || chunk.toList == [10] then return (chunk.toList ++ read).reverse
  readInput stream (chunk.toList ++ read)

/-- Writes a report out and gives its exit code. Records of the log are written without stamps. -/
def Report.emit (r : Report) : IO UInt32 := do
  IO.print r.stdout
  IO.eprint r.stderr
  return r.code

end Criteria.Command

open Criteria.Command in
/-- Runs the command. -/
def main (args : List String) : IO UInt32 := do
  match parse args with
  | .ok inv =>
    if inv.criterion.isSome then (inv.run []).emit
    else
      IO.print Invocation.prompt
      (← IO.getStdout).flush
      (inv.answerLine (← readInput (← IO.getStdin) [])).emit
  | .error r => r.emit
