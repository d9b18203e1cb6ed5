import ChatText.Text.GraphemeExtend
import ChatText.Text.Printable

/-!
# Symbols that are seen on their own

Being printable is not enough for a symbol to be seen. Most symbols that extend the one before
them leave no trace of their own, and some letters have no image at all: text renderers skip
them by default. The code points here are of Unicode version 17.0.
-/

namespace ChatText

/-- The Hangul fillers. Among the printable symbols that extend no other, they are the ones with
the property Default_Ignorable_Code_Point. -/
def fillerRanges : CodeRanges := [(0x115F, 0x1160), (0x3164, 0x3164), (0xFFA0, 0xFFA0)]

/-- The halfwidth sound marks of Katakana. Among the printable symbols that extend another, they
are the ones that are letters and not marks: they take up room of their own. -/
def soundMarkRanges : CodeRanges := [(0xFF9E, 0xFF9F)]

/-- Does the symbol melt into the one before it? -/
def isCombining (c : Char) : Bool := isGraphemeExtend c && !soundMarkRanges.has c.toNat

/-- Is the symbol seen on its own? -/
def isVisible (c : Char) : Bool := isPrintable c && !fillerRanges.has c.toNat && !isCombining c

end ChatText
