import ChatText.Layout.Paragraph
import ChatText.Link
import ChatText.Marker.Encode
import ChatText.Marker.Token

/-!
# Transformations of messages

The changes that a message can go through as a whole: glyphs become markers, markers go, lines
are packed anew.
-/

namespace ChatText

/-- Changes of a message, made in the order of the fields. -/
structure Transform where
  /-- Glyphs become markers; links are left alone. -/
  encode : Bool := false
  /-- Markers go. -/
  strip : Bool := false
  /-- Lines are packed anew to this width, links counting as they are shown. -/
  width : Option Nat := none
  deriving DecidableEq, Repr

namespace Transform

/-- Does what `f` does if `wanted`, and else nothing. -/
def onlyIf (wanted : Bool) (f : Text → Text) (t : Text) : Text := if wanted then f t else t

/-- Packs the lines anew, if a width is given. -/
def fit : Option Nat → Text → Text
  | none, t => t
  | some width, t => Layout.fitWidth width { abbreviateLinks := true } t

/-- A message with the changes made. -/
def apply (r : Registry) (tr : Transform) (t : Text) : Text :=
  fit tr.width (onlyIf tr.strip Marker.strip (onlyIf tr.encode (ChatText.encode r Link.isWeb) t))

/-- The content of a message file with the changes made. A newline at its end is kept. -/
def applyToFile (r : Registry) (tr : Transform) (content : Text) : Text :=
  let changed := tr.apply r content
  if content.getLast? = some '\n' then ensureFinalNewline changed else changed

end Transform

end ChatText
