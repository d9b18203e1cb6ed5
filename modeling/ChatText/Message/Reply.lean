import ChatText.Marker.Basic
import ChatText.Markup.Scan

/-!
# Replies

A reply takes over the title of the message it answers, and quotes its body line by line. The
quote holds neither markers nor markup blocks.
-/

namespace ChatText

namespace Reply

/-- What the title of a reply starts with. -/
def titleMark : Text := "Re: ".toList

/-- What a quoted line starts with. -/
def quoteMark : Text := ">>".toList

/-- The title of a reply; a blank title stays without one. -/
def title (t : Text) : Text :=
  if trim t = [] then [] else titleMark ++ Marker.strip (trim t)

/-- The text outside markup blocks. Spans are set off by a space. -/
def plainText (tags : Markup.Tags) (t : Text) : Text :=
  (Markup.events tags t).foldl (fun plain e =>
    match e with
    | .plain span => if plain = [] ∨ span = [] then plain ++ span else plain ++ ' ' :: span
    | .block _ | .unterminated => plain) []

/-- The lines of a text without the empty ones at its end. -/
def linesToLastFilled (t : Text) : List Text :=
  ((lines t).reverse.dropWhile (· = [])).reverse

/-- A quoted line. -/
def quoteLine (line : Text) : Text := quoteMark ++ line ++ ['\n']

/-- The quoted body of a message; a blank body is not quoted. -/
def body (t : Text) : Text :=
  if trim t = [] then []
  else (linesToLastFilled (plainText .object (Marker.strip (trim t)))).flatMap quoteLine

end Reply

end ChatText
