import ChatText.Command.Files
import ChatText.Command.Request
import ChatText.Marker.Price
import ChatText.Message.Listing

/-!
# Doing what is asked for

What a request does to message files, what is printed where, and with which code the command ends:
0 if all went well, 1 if a file failed.
-/

namespace ChatText

namespace Command

/-! ## Messages -/

/-- What a view shows of a message. -/
def View.show (r : Registry) (t : Text) : View → Text
  | text => t
  | price => decimal (ChatText.price r t)
  | segments => unlines (listing r {} t)

/-- What is printed for the content of a message file: its last newline does not belong to the
message, and the print ends in one. -/
def printed (r : Registry) (tr : Transform) (view : View) (content : Text) : Text :=
  view.show r (tr.apply r (dropFinalNewline content)) ++ ['\n']

/-! ## Failures -/

/-- What the command was about when it failed. -/
inductive Activity where
  | readInput
  | readFile (path : Text)
  | updateFile (path : Text)
  deriving DecidableEq, Repr

/-- A failure with its cause. -/
structure Failure where
  activity : Activity
  cause : FileError
  deriving DecidableEq, Repr

/-- What could not be done. -/
def Activity.failed : Activity → Text
  | readInput => "failed to read standard input".toList
  | readFile path => "failed to read ".toList ++ path
  | updateFile path => "failed to rewrite ".toList ++ path

/-- The report of a failure. -/
def Failure.report (f : Failure) : Text :=
  "Error: ".toList ++ f.activity.failed ++ "\n\nCaused by:\n    ".toList ++ f.cause.message
    ++ ['\n']

/-! ## Files -/

variable {m : Type → Type} [Monad m]

/-- What is printed for files, one after the other, up to the first that fails. -/
def printFiles (files : Files m) (print : Text → Text) :
    List Text → m (Text × Option Failure)
  | [] => return ([], none)
  | path :: rest => do
    match (← files.read path) >>= textOfBytes with
    | .error cause => return ([], some ⟨.readFile path, cause⟩)
    | .ok content =>
      let (out, failure?) ← printFiles files print rest
      return (print content ++ out, failure?)

/-- Changes the message in a file where it is. -/
def updateFile (files : Files m) (change : Text → Text) (path : Text) :
    m (Except FileError Unit) := do
  match (← files.read path) >>= textOfBytes with
  | .error cause => return .error cause
  | .ok content => files.write path (bytesOfText (change content))

/-- Changes files one after the other, up to the first that fails. -/
def updateFiles (files : Files m) (change : Text → Text) : List Text → m (Option Failure)
  | [] => return none
  | path :: rest => do
    match ← updateFile files change path with
    | .error cause => return some ⟨.updateFile path, cause⟩
    | .ok () => updateFiles files change rest

/-! ## The command -/

/-- How a run ends. -/
structure Outcome where
  exitCode : UInt8 := 0
  stdout : Text := []
  stderr : Text := []
  deriving DecidableEq, Repr

/-- The outcome after something was printed and perhaps something failed. -/
def Outcome.ofPrint (out : Text) : Option Failure → Outcome
  | none => { stdout := out }
  | some failure => { exitCode := 1, stdout := out, stderr := failure.report }

/-- The name and the version of the command. -/
def versionText : Text := "emotext 0.1.0\n".toList

/-- How the command is used. -/
def helpText : Text :=
  unlines (List.map String.toList [
    "Encode and render emoticon markers in chat messages",
    "",
    "Usage: emotext [OPTIONS] [FILES]...",
    "",
    "Arguments:",
    "  [FILES]...  Message files to process",
    "",
    "Options:",
    "      --in-place   Rewrite files in place",
    "      --encode     Replace emoticon glyphs with `$code$` markers, leaving links alone",
    "      --strip      Remove every `$code$` marker",
    "      --width <N>  Rewrap lines to at most N symbols, counting links as abbreviated",
    "      --price      Print the total emoticon price instead of the text",
    "      --segments   Print the rendered segments, one per line",
    "  -h, --help       Print help",
    "  -V, --version    Print version",
    ""])

/-- Does what is asked for. -/
def perform (files : Files m) (r : Registry) : Request → m Outcome
  | .version => return { stdout := versionText }
  | .help => return { stdout := helpText }
  | .printInput tr view => do
    match (← files.input) >>= textOfBytes with
    | .error cause => return .ofPrint [] (some ⟨.readInput, cause⟩)
    | .ok content => return .ofPrint (printed r tr view content) none
  | .printFiles tr view paths => do
    let (out, failure?) ← printFiles files (printed r tr view) paths
    return .ofPrint out failure?
  | .updateFiles tr paths =>
    return .ofPrint [] (← updateFiles files (tr.applyToFile r) paths)

end Command

end ChatText
