import ChatText.Text.Basic

/-!
# Lines of bounded width

`wrap` packs words into lines from the left, each line taking as many words as fit. Links count
with their visible length, which may differ from the number of their symbols. A word that is too
wide for any line is cut: its first piece fills the line that is being packed, full pieces follow
on lines of their own, and what is left starts the next line.
-/

namespace ChatText

namespace Layout

/-- The words of a line and the width they take, a space between neighbours included. -/
structure Line where
  words : List Text := []
  width : Nat := 0
  deriving DecidableEq, Repr

namespace Line

/-- The words joined by single spaces. -/
def text (l : Line) : Text := unwords l.words

/-- The width that is taken when one more word comes: of the words and of the space. -/
def taken (l : Line) : Nat := if l.words = [] then 0 else l.width + 1

/-- The line with one more word of the given width. -/
def push (l : Line) (word : Text) (width : Nat) : Line :=
  ⟨l.words ++ [word], l.taken + width⟩

/-- The line as a list of finished lines: a line without words is none. -/
def finish (l : Line) : List Line := if l.words = [] then [] else [l]

end Line

/-- How wide words are shown: links by a hook on the number of their symbols. -/
structure Metric where
  isLink : Text → Bool
  visible : Nat → Nat

/-- The width that a word takes on a line. -/
def Metric.width (metric : Metric) (word : Text) : Nat :=
  if metric.isLink word then metric.visible word.length else word.length

/-- The lines of full width that come out of cutting `t`, and the line that the rest starts. -/
def fullLines (max : Nat) (t : Text) : List Line × Line :=
  let pieces := cut max t
  let last := pieces.getLast?.getD []
  (pieces.dropLast.map fun piece => ⟨[piece], max⟩,
    if last = [] then {} else Line.push {} last last.length)

/-- Goes on packing with `line` begun. -/
def wrapFrom (max : Nat) (metric : Metric) (line : Line) : List Text → List Line
  | [] => line.finish
  | word :: rest =>
    if word = [] then wrapFrom max metric line rest
    else if line.taken + metric.width word ≤ max then
      wrapFrom max metric (line.push word (metric.width word)) rest
    else if metric.width word ≤ max then
      line.finish ++ wrapFrom max metric (Line.push {} word (metric.width word)) rest
    else
      -- too wide for any line: the room that is left takes the first symbols
      let room := max - line.taken
      let filled := if room = 0 then line else line.push (word.take room) room
      let (full, next) := fullLines max (word.drop room)
      filled.finish ++ full ++ wrapFrom max metric next rest

/-- Packs words into lines of at most `maxWidth` symbols; a width of zero counts as one, and
empty words are left out. -/
def wrap (maxWidth : Nat) (metric : Metric) (words : List Text) : List Line :=
  wrapFrom (max 1 maxWidth) metric {} words

end Layout

end ChatText
