import ChatText.Text.Basic
import ChatText.Text.Visible

/-!
# Quoted text

A listing shows text between double quotes. The quote and the backslash are escaped by a
backslash, the NUL, the tab, the carriage return and the newline have a letter of their own,
and every other symbol that is not seen on its own is written by its code point in hexadecimal.
The single quote stands for itself.
-/

namespace ChatText

/-- A symbol written by its code point: lower-case hexadecimal, no leading zero, in braces. -/
def codePointEscape (c : Char) : Text :=
  ['\\', 'u', '\x7b'] ++ Nat.toDigits 16 c.toNat ++ ['\x7d']

/-- How a symbol is written between quotes. -/
def quotedSymbol (c : Char) : Text :=
  match c with
  | '\x00' => ['\\', '0']
  | '\t' => ['\\', 't']
  | '\r' => ['\\', 'r']
  | '\n' => ['\\', 'n']
  | '"' => ['\\', '"']
  | '\\' => ['\\', '\\']
  | c => if isVisible c then [c] else codePointEscape c

/-- A text between double quotes. -/
def quoted (t : Text) : Text := ['"'] ++ t.flatMap quotedSymbol ++ ['"']

end ChatText
