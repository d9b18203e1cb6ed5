import ChatText.Text.Blank
import ChatText.Text.Decimal
import ChatText.Text.Piece

/-!
# Markers

In a stored message an emoticon is written as a marker: its code in decimal between two
delimiters. Any run of ASCII digits between two delimiters has the form of a marker, whether or
not it names an emoticon.
-/

namespace ChatText

namespace Marker

/-- The symbol around the digits of a marker. -/
def delimiter : Char := '$'

/-- The marker of a code. -/
def write (code : UInt32) : Text := delimiter :: (decimal code.toNat ++ [delimiter])

/-- The digits of the marker that a text starts with. -/
def digits? : Text → Option Text
  | [] => none
  | c :: t =>
    if c = delimiter ∧ t.takeWhile Char.isDigit ≠ []
        ∧ (t.dropWhile Char.isDigit).head? = some delimiter then
      some (t.takeWhile Char.isDigit)
    else none

/-- Recognises every marker, by its digits. -/
def any : Recogniser Text := fun t => do
  let digits ← digits? t
  return (digits, digits.length + 2)

/-- Recognises the markers of known codes. -/
def known (isKnown : UInt32 → Bool) : Recogniser UInt32 := fun t => do
  let digits ← digits? t
  let code ← decimalValue32? digits
  if isKnown code then some (code, digits.length + 2) else none

/-- A text without its markers, known or not. A blank text becomes empty. -/
def strip (t : Text) : Text :=
  if isBlankText t then [] else (Piece.scan any t).filterMap Piece.symbol?

end Marker

end ChatText
