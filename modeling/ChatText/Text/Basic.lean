/-!
# Message text

A message is a list of symbols. Lengths and widths everywhere in the library count symbols.

Two ways to take a text apart live here:

* `lines` / `unlines`, at the newline, and `words` / `unwords`, at the single space;
* `cut`, into pieces of a fixed number of symbols.
-/

namespace ChatText

/-- Message text: a sequence of symbols (Unicode scalar values). -/
abbrev Text := List Char

/-! ## Lines and words -/

/-- The lines of a text: one more than it has newlines. -/
def lines (t : Text) : List Text := t.splitOn '\n'

/-- Joins lines by newlines. -/
def unlines (ls : List Text) : Text := ['\n'].intercalate ls

/-- The pieces of a text between single spaces, empty ones included. -/
def words (t : Text) : List Text := t.splitOn ' '

/-- Joins words by single spaces. -/
def unwords (ws : List Text) : Text := [' '].intercalate ws

/-- The number of lines: one more than the number of newlines. -/
def lineCount (t : Text) : Nat := t.count '\n' + 1

/-- Every newline becomes a space. -/
def spaceNewlines (t : Text) : Text := t.map fun c => if c = '\n' then ' ' else c

/-- Without the newline at the very end, if there is one. -/
def dropFinalNewline (t : Text) : Text :=
  if t.getLast? = some '\n' then t.dropLast else t

/-- With a newline at the very end. -/
def ensureFinalNewline (t : Text) : Text :=
  if t.getLast? = some '\n' then t else t ++ ['\n']

/-! ## Pieces of a fixed length -/

/-- Cuts `t` where `room` symbols still fit the piece that is being filled. -/
def cutFrom (size : Nat) (room : Nat) (t : Text) : List Text :=
  match t, room with
  | [], _ => [[]]
  | c :: t, 0 => [] :: (cutFrom size (size - 1) t).modifyHead (c :: ·)
  | c :: t, room + 1 => (cutFrom size room t).modifyHead (c :: ·)

/-- Cuts a text into pieces of `size` symbols, the last one holding what is left over. The
empty text is one empty piece; `size` is meant to be positive. -/
def cut (size : Nat) (t : Text) : List Text := cutFrom size size t

end ChatText
