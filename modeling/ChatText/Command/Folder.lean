import ChatText.Command.Files

/-!
# A folder in memory

The command can work on a folder that is held in memory and that it is started in. The folder
holds files and no other folder. Of the directories around it nothing is known but that they are
there, so a path that has left the folder finds no file.
-/

namespace ChatText

namespace Command

/-- Files by their names, and what comes in on the standard input. -/
structure Folder where
  entries : List (Text × ByteArray) := []
  input : ByteArray := .empty

namespace Folder

/-! ## Contents -/

/-- What the file of a name holds. -/
def content? (f : Folder) (name : Text) : Option ByteArray := f.entries.lookup name

/-- The folder with the file of a name holding the given bytes. A new file comes last. -/
def put (f : Folder) (name : Text) (bytes : ByteArray) : Folder :=
  { f with
    entries :=
      if (f.content? name).isSome then
        f.entries.map fun e => if e.1 = name then (name, bytes) else e
      else f.entries ++ [(name, bytes)] }

/-! ## Paths -/

/-- The number of bytes that a path may have. -/
def maxPathBytes : Nat := 4095

/-- The number of bytes that the name of a file may have. -/
def maxNameBytes : Nat := 255

/-- The directory that the parts of a path have led to. -/
inductive Place where
  /-- The folder. -/
  | inside
  /-- A directory around the folder. -/
  | outside
  deriving DecidableEq, Repr

/-- Where a path starts: at the root of all directories, or in the folder. -/
def startOf (path : Text) : Place := if path.head? = some '/' then .outside else .inside

/-- The name of the file that the parts of a path lead to from a directory. Empty parts and
single dots lead nowhere, two dots lead to the directory around; the root is its own. -/
def follow (f : Folder) (place : Place) : List Text → Except FileError Text
  | [] => .error .isDirectory
  | part :: rest =>
    if part = [] ∨ part = ['.'] then f.follow place rest
    else if part = ['.', '.'] then f.follow .outside rest
    else if maxNameBytes < (bytesOfText part).size then .error .nameTooLong
    else if place = .outside ∨ (f.content? part).isNone then .error .notFound
    else if rest = [] then .ok part
    else .error .notDirectory

/-- The name of the file that a path leads to. -/
def locate (f : Folder) (path : Text) : Except FileError Text :=
  if maxPathBytes < (bytesOfText path).size then .error .nameTooLong
  else f.follow (startOf path) (path.splitOn '/')

/-! ## Operations -/

/-- What the file at a path holds. -/
def read (f : Folder) (path : Text) : Except FileError ByteArray := do
  let name ← f.locate path
  match f.content? name with
  | some bytes => .ok bytes
  | none => .error .notFound

/-- The folder with the file at a path holding other bytes. -/
def write (f : Folder) (path : Text) (bytes : ByteArray) : Except FileError Folder := do
  let name ← f.locate path
  return f.put name bytes

/-- The operations on the folder. -/
def files : Files (StateM Folder) where
  read path := return (← get).read path
  write path bytes := do
    match (← get).write path bytes with
    | .ok f => set f; return .ok ()
    | .error e => return .error e
  input := return .ok (← get).input

end Folder

end Command

end ChatText
