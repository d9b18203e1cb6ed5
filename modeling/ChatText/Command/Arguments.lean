import ChatText.Command.Request
import ChatText.Text.Decimal

/-!
# Command-line arguments

Arguments are read from the left. `--version` and `--help` decide at once; of the other options
each may be given once, anywhere between the names of files. What was collected is then checked
for options that exclude one another.
-/

namespace ChatText

namespace Command

/-! ## Errors -/

/-- Why arguments make no request. -/
inductive UsageError where
  | unknownOption (argument : Text)
  | repeatedOption (name : Text)
  | unexpectedValue (name : Text)
  | missingValue (name : Text)
  | invalidNumber (name value : Text)
  | emptyFileName
  | missingFiles
  | conflict (name other : Text)
  deriving DecidableEq, Repr

/-- The wording of an error. -/
def UsageError.message : UsageError → Text
  | unknownOption a => "unexpected argument '".toList ++ a ++ "' found".toList
  | repeatedOption n => "the argument '--".toList ++ n ++ "' cannot be used multiple times".toList
  | unexpectedValue n => "unexpected value for '--".toList ++ n ++ "' found".toList
  | missingValue n => "a value is required for '--".toList ++ n ++ "' but none was supplied".toList
  | invalidNumber n v => "invalid value '".toList ++ v ++ "' for '--".toList ++ n ++ ['\'']
  | emptyFileName => "a file name must not be empty".toList
  | missingFiles => "the argument '--in-place' needs the names of files".toList
  | conflict n o =>
    "the argument '--".toList ++ n ++ "' cannot be used with '--".toList ++ o ++ ['\'']

/-! ## Single arguments -/

/-- The form of an argument. -/
inductive Argument where
  /-- Everything behind it is the name of a file. -/
  | endOfOptions
  | long (name : Text) (value? : Option Text)
  | short (letter : Char)
  | file (name : Text)
  deriving DecidableEq, Repr

/-- Reads the form of an argument. A single hyphen is the name of a file. -/
def Argument.ofText : Text → Argument
  | ['-', '-'] => endOfOptions
  | '-' :: '-' :: body =>
    match body.dropWhile (· ≠ '=') with
    | [] => long body none
    | _ :: value => long (body.takeWhile (· ≠ '=')) (some value)
  | '-' :: letter :: _ => short letter
  | name => file name

/-- Widths are below this number, the 64th power of two. -/
def widthBound : Nat := 18446744073709551616

/-- A width: ASCII digits, perhaps behind a plus sign. -/
def width? (t : Text) : Option Nat :=
  let digits := if t.head? = some '+' then t.tail else t
  if digits ≠ [] ∧ digits.all Char.isDigit ∧ decimalValue digits < widthBound then
    some (decimalValue digits)
  else none

/-! ## All arguments -/

/-- The options and files that were given. -/
structure Given where
  inPlace : Bool := false
  encode : Bool := false
  strip : Bool := false
  width : Option Nat := none
  price : Bool := false
  segments : Bool := false
  files : List Text := []
  deriving DecidableEq, Repr

namespace Given

/-- Records a width. -/
def addWidth (g : Given) (value : Text) : Except UsageError Given :=
  match g.width, width? value with
  | some _, _ => .error (.repeatedOption "width".toList)
  | none, some n => .ok { g with width := some n }
  | none, none => .error (.invalidNumber "width".toList value)

/-- Records an option without a value. -/
def addOption (g : Given) (name : Text) : Except UsageError Given :=
  if name = "in-place".toList then
    if g.inPlace then .error (.repeatedOption name) else .ok { g with inPlace := true }
  else if name = "encode".toList then
    if g.encode then .error (.repeatedOption name) else .ok { g with encode := true }
  else if name = "strip".toList then
    if g.strip then .error (.repeatedOption name) else .ok { g with strip := true }
  else if name = "price".toList then
    if g.price then .error (.repeatedOption name) else .ok { g with price := true }
  else if name = "segments".toList then
    if g.segments then .error (.repeatedOption name) else .ok { g with segments := true }
  else .error (.unknownOption ("--".toList ++ name))

/-- Records the name of a file. -/
def addFile (g : Given) (name : Text) : Except UsageError Given :=
  if name = [] then .error .emptyFileName else .ok { g with files := g.files ++ [name] }

/-- The changes that are asked for. -/
def transform (g : Given) : Transform := ⟨g.encode, g.strip, g.width⟩

/-- What is to be printed. -/
def view (g : Given) : View :=
  if g.price then .price else if g.segments then .segments else .text

/-- The request that the options and files make together. -/
def request (g : Given) : Except UsageError Request :=
  if g.inPlace ∧ g.price then .error (.conflict "in-place".toList "price".toList)
  else if g.inPlace ∧ g.segments then .error (.conflict "in-place".toList "segments".toList)
  else if g.price ∧ g.segments then .error (.conflict "price".toList "segments".toList)
  else if g.inPlace ∧ g.files = [] then .error .missingFiles
  else if g.inPlace then .ok (.updateFiles g.transform g.files)
  else if g.files = [] then .ok (.printInput g.transform g.view)
  else .ok (.printFiles g.transform g.view g.files)

end Given

/-- Goes on reading arguments after some were given. -/
def readArguments (g : Given) : List Text → Except UsageError Request
  | [] => g.request
  | argument :: rest =>
    match Argument.ofText argument with
    | .endOfOptions => do (← rest.foldlM Given.addFile g).request
    | .file name => do readArguments (← g.addFile name) rest
    | .short 'V' => .ok .version
    | .short 'h' => .ok .help
    | .short _ => .error (.unknownOption argument)
    | .long name value? =>
      if name = "width".toList then
        match value?, rest with
        | some value, rest => do readArguments (← g.addWidth value) rest
        | none, [] => .error (.missingValue name)
        | none, value :: rest =>
          match Argument.ofText value with
          | .file value => do readArguments (← g.addWidth value) rest
          | _ => .error (.missingValue name)
      else
        match value? with
        | some _ => .error (.unexpectedValue name)
        | none =>
          if name = "version".toList then .ok .version
          else if name = "help".toList then .ok .help
          else do readArguments (← g.addOption name) rest

/-- The request that command-line arguments make. -/
def Request.ofArguments (arguments : List Text) : Except UsageError Request :=
  readArguments {} arguments

end Command

end ChatText
