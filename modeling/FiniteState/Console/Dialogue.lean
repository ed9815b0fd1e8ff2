import FiniteState.Console.Session

/-!
# Dialogues

The console greets, asks for lines with a prompt and carries them out until a line says so or there
are no more of them, and says goodbye. A line that fails is reported, and the dialogue goes on with
the items as they were. So it does after an interruption and after a blank line.

## Main definitions

* `Console.Input`: A line, or an interruption in place of one.
* `Console.respond`: What is shown for an input, and the session after it.
* `Console.Transcript`, `Console.transcript`: All that is shown for a list of inputs.
-/

namespace FiniteState

namespace Console

/-- What a prompt is answered with. -/
inductive Input
  | line (text : String)
  | interruption
deriving DecidableEq

/-- What is shown for an input, the session after it, and whether the dialogue goes on. -/
structure Response where
  shown : String
  session : Session
  goesOn : Bool
deriving DecidableEq

/-- All that is shown in a dialogue, and the number of inputs that were not asked for. -/
structure Transcript where
  shown : String
  unread : Nat
deriving DecidableEq

/-- The first text of a dialogue. -/
def greeting : String := "Automaton & RegEx Terminal - Type 'help' for commands\n\n"

/-- What stands before every input. -/
def prompt : String := "> "

/-- The last text of a dialogue. -/
def farewell : String := "Goodbye!\n"

/-- Carry out a line that is not blank. -/
def respondTo (disk : Disk) (session : Session) (line : String) : Response :=
  let done := step disk session line
  let shown := done.console.shown
  match done.outcome with
  | .ok goesOn => ⟨shown, done.console.session, goesOn⟩
  | .error fault => ⟨shown ++ "Error: " ++ fault.message ++ "\n", done.console.session, true⟩

/-- What is shown for an input, and the session after it. -/
def respond (disk : Disk) (session : Session) : Input → Response
  | .interruption => ⟨"\nUse 'exit' to quit\n", session, true⟩
  | .line text =>
    let line := Text.trim text.toList
    if line.isEmpty then ⟨"", session, true⟩ else respondTo disk session (String.ofList line)

/-- What is shown from the first prompt on, without the farewell. -/
def converse (disk : Disk) : Session → List Input → Transcript
  | _, [] => ⟨prompt, 0⟩
  | session, input :: rest =>
    let response := respond disk session input
    if response.goesOn then
      let after := converse disk response.session rest
      { after with shown := prompt ++ response.shown ++ after.shown }
    else ⟨prompt ++ response.shown, rest.length⟩

/-- All that is shown in a dialogue with no items at first. -/
def transcript (disk : Disk) (inputs : List Input) : Transcript :=
  let body := converse disk .empty inputs
  { body with shown := greeting ++ body.shown ++ farewell }

end Console

end FiniteState
