import ChatText.Text.Basic

/-!
# Message files

The command reads and writes files through a record of operations, so that it runs on the files
of the machine and on any store that stands for them. Contents are bytes; a message is the text
that they encode in UTF-8.
-/

namespace ChatText

namespace Command

/-- Why a file could not be used. -/
inductive FileError where
  | notFound
  | notDirectory
  | isDirectory
  | nameTooLong
  | notText
  | other (message : Text)
  deriving DecidableEq, Repr

/-- The wording of an error. -/
def FileError.message : FileError → Text
  | notFound => "No such file or directory (os error 2)".toList
  | notDirectory => "Not a directory (os error 20)".toList
  | isDirectory => "Is a directory (os error 21)".toList
  | nameTooLong => "File name too long (os error 36)".toList
  | notText => "stream did not contain valid UTF-8".toList
  | other message => message

/-- The operations on files, found by their paths, and the standard input. -/
structure Files (m : Type → Type) where
  read : Text → m (Except FileError ByteArray)
  write : Text → ByteArray → m (Except FileError Unit)
  input : m (Except FileError ByteArray)

/-! ## Contents -/

/-- The bytes of a text. -/
def bytesOfText (t : Text) : ByteArray := (String.ofList t).toUTF8

/-- The text that bytes encode. -/
def textOfBytes (bytes : ByteArray) : Except FileError Text :=
  match String.fromUTF8? bytes with
  | some s => .ok s.toList
  | none => .error .notText

end Command

end ChatText
