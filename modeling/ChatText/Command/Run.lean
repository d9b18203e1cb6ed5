import ChatText.Command.Arguments
import ChatText.Command.Perform

/-!
# Running the command

A run reads its arguments and does what they ask for. Arguments that make no sense end it with the
code 2.
-/

namespace ChatText

namespace Command

variable {m : Type → Type} [Monad m]

/-- Runs the command with the given arguments. -/
def run (files : Files m) (r : Registry) (arguments : List Text) : m Outcome :=
  match Request.ofArguments arguments with
  | .ok request => perform files r request
  | .error e =>
    return { exitCode := 2, stderr := "error: ".toList ++ e.message ++ ['\n'] }

end Command

end ChatText
