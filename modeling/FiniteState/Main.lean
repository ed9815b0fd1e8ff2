import FiniteState.Console.Dialogue

/-!
# The Program

The console on standard input and output. Lines are handed to `Console.respond` one by one. The disk
of a line holds the one file that the line asks for.

## Main definitions

* `main`: The dialogue from the greeting to the farewell.
-/

namespace FiniteState

/-- The bytes of the file at a path, or why there are none. -/
def readBytes (path : String) : IO (Except PathProblem (List Nat)) := do
  if path.toList.contains '\x00' then
    return .error .nullCharacter
  try
    let bytes ← IO.FS.readBinFile path
    return .ok (bytes.toList.map UInt8.toNat)
  catch
    | .inappropriateType _ code _ =>
      return .error (if code = 21 then .directory else .notDirectory)
    | .invalidArgument _ _ _ => return .error .nameTooLong
    | _ => return .error .missing

/-- The disk with the file that a line asks for. -/
def diskFor (line : String) : IO Disk := do
  match Command.ofLine? line.toList with
  | some (.load path) =>
    let bytes ← readBytes path
    return fun name => if name = path then bytes else .error .missing
  | _ => return fun _ => .error .missing

/-- Ask for lines and carry them out until one says to stop or the input ends. -/
partial def converse (input output : IO.FS.Stream) (session : Session) : IO Unit := do
  output.putStr Console.prompt
  output.flush
  let line ← input.getLine
  if line.isEmpty then
    return
  let response := Console.respond (← diskFor line) session (.line line)
  output.putStr response.shown
  if response.goesOn then
    converse input output response.session

end FiniteState

/-- The dialogue from the greeting to the farewell. -/
def main : IO Unit := do
  let output ← IO.getStdout
  output.putStr FiniteState.Console.greeting
  FiniteState.converse (← IO.getStdin) output .empty
  output.putStr FiniteState.Console.farewell
