import ChatText.Marker.Basic
import ChatText.Registry.Basic

/-!
# Typed messages with markers

Before a typed message is stored, each glyph in it becomes the marker of its code. Glyphs are
looked for inside the words of the message, longer glyphs before shorter ones, so that no glyph
is taken for a shorter one that it contains; words that the caller wants kept, such as links,
are left alone.
-/

namespace ChatText

/-- Replaces each glyph, in the given order, by its marker. -/
def substituteGlyphs (substitutions : List (Text × UInt32)) (word : Text) : Text :=
  substitutions.foldl (fun t s => replaceAll s.1 (Marker.write s.2) t) word

/-- The glyphs with their codes, in the order in which they are substituted. -/
def Registry.substitutions (r : Registry) : List (Text × UInt32) :=
  r.glyphsLongestFirst.filterMap fun g => (r.codeFor? g).map (g, ·)

/-- A word with the glyphs in it as markers; the empty word and the kept ones stay as they are. -/
def encodeWord (substitutions : List (Text × UInt32)) (keep : Text → Bool) (word : Text) : Text :=
  if word = [] ∨ keep word then word else substituteGlyphs substitutions word

/-- A typed message as it is stored: blanks other than the newline become spaces, words are
encoded one by one, and the result is trimmed. -/
def encode (r : Registry) (keep : Text → Bool) (t : Text) : Text :=
  let substitutions := r.substitutions
  let encodeLine (line : Text) := unwords ((words line).map (encodeWord substitutions keep))
  trim (unlines ((lines (spaceBlanks t)).map encodeLine))

end ChatText
