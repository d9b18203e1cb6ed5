import ChatText.Message.Segment
import ChatText.Text.Quoted

/-!
# Listings of messages

What is displayed of a message is listed with one line per segment, in words that can be read and
compared.
-/

namespace ChatText

/-- The first line of the listing of a message whose markup was given up. -/
def incompleteNotice : Text := "incomplete: unterminated markup".toList

/-- An emoticon by its code and, if it is known, its image and its size. -/
def describeEmoticon (r : Registry) (code : UInt32) : Text :=
  let name := "emoticon ".toList ++ decimal code.toNat
  match r.emoticon? code with
  | none => name
  | some e =>
    name ++ [' '] ++ e.imageRef ++ [' '] ++ decimal e.width.toNat ++ ['x']
      ++ decimal e.height.toNat

/-- One segment in words. -/
def describeSegment (r : Registry) : Segment → Text
  | .text t => "text ".toList ++ quoted t
  | .emoticon code => describeEmoticon r code
  | .link t =>
    "link ".toList ++ Link.address t ++ [' '] ++ quoted (Link.visibleText t)
  | .markup t => "markup ".toList ++ quoted t
  | .lineBreak => "break".toList

/-- What is displayed, in words, line by line. -/
def describe (r : Registry) (display : Display) : List Text :=
  (if display.incomplete then [incompleteNotice] else [])
    ++ display.segments.map (describeSegment r)

/-- The listing of a stored message. -/
def listing (r : Registry) (o : DisplayOptions) (t : Text) : List Text :=
  describe r (Display.ofMessage r o t)

end ChatText
