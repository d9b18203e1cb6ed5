import ChatText.Text.Basic
import ChatText.Text.CodeRange

/-!
# Blank symbols

A symbol is blank when it has the Unicode property White_Space. The newline is blank too; the
functions that treat it apart say so.
-/

namespace ChatText

/-- The code points with the property White_Space. -/
def blankRanges : CodeRanges :=
  [(0x09, 0x0D), (0x20, 0x20), (0x85, 0x85), (0xA0, 0xA0), (0x1680, 0x1680), (0x2000, 0x200A),
   (0x2028, 0x2029), (0x202F, 0x202F), (0x205F, 0x205F), (0x3000, 0x3000)]

example : blankRanges.size = 25 := by decide

/-- Has the symbol the property White_Space? -/
def isBlank (c : Char) : Bool := blankRanges.has c.toNat

/-- The table adds to the four blanks of `Char.isWhitespace` and takes none away. -/
theorem isBlank_of_isWhitespace {c : Char} (h : c.isWhitespace = true) : isBlank c = true := by
  simp only [Char.isWhitespace, Bool.or_eq_true, decide_eq_true_eq] at h
  rcases h with ((h | h) | h) | h <;> subst h <;> decide

/-- Is there nothing but blanks in the text? -/
def isBlankText (t : Text) : Bool := t.all isBlank

/-- Without the blanks at both ends. -/
def trim (t : Text) : Text := (t.dropWhile isBlank).reverse.dropWhile isBlank |>.reverse

/-- The runs of symbols between blanks, empty ones included. -/
def splitAtBlanks (t : Text) : List Text := t.splitOnP isBlank

/-- Every blank other than the newline becomes a space. -/
def spaceBlanks (t : Text) : Text := t.map fun c => if c ≠ '\n' ∧ isBlank c then ' ' else c

end ChatText
