import ChatText.Layout.Line
import ChatText.Link
import ChatText.Text.Blank

/-!
# Text of bounded width

A text is laid out line by line; within a line runs of blanks collapse to single spaces.
-/

namespace ChatText

namespace Layout

/-- Every symbol counts. -/
def Metric.plain : Metric := ⟨fun _ => false, id⟩

/-- Links count as they are shown. -/
def Metric.shown : Metric := ⟨Link.isWeb, Link.visibleLength⟩

/-- How `fitWidth` lays a text out. -/
structure ParagraphOptions where
  /-- The whole text is one line. -/
  discardNewlines : Bool := false
  /-- Links count as they are shown. -/
  abbreviateLinks : Bool := false
  deriving DecidableEq, Repr

/-- How wide words are under the options. -/
def ParagraphOptions.metric (o : ParagraphOptions) : Metric :=
  if o.abbreviateLinks then .shown else .plain

/-- One line of text as lines of bounded width. -/
def fitLine (maxWidth : Nat) (metric : Metric) (line : Text) : Text :=
  unlines ((wrap maxWidth metric (splitAtBlanks line)).map Line.text)

/-- Lays a text out in lines of at most `maxWidth` symbols and drops one newline at its end. -/
def fitWidth (maxWidth : Nat) (o : ParagraphOptions) (t : Text) : Text :=
  let t := if o.discardNewlines then spaceNewlines t else t
  dropFinalNewline (unlines ((lines t).map (fitLine maxWidth o.metric)))

end Layout

end ChatText
