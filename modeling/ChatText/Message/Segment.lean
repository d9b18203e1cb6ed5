import ChatText.Layout.Label
import ChatText.Link
import ChatText.Marker.Token
import ChatText.Markup.Scan

/-!
# Messages as segments

A stored message is shown as a sequence of segments. Markup blocks are set apart first, so that
nothing inside them is read as a marker; what is plain is shown line by line, each line as its
emoticons and the labels and links between them. If a block is never closed, the message is
shown as if it held no markup at all.
-/

namespace ChatText

/-- A piece of a message as it is shown. -/
inductive Segment where
  | text (t : Text)
  | emoticon (code : UInt32)
  | link (t : Text)
  | markup (t : Text)
  | lineBreak
  deriving DecidableEq, Repr

/-- How a message is shown. -/
structure DisplayOptions where
  /-- The longest piece of a word that is shown without a break. -/
  maxWord : Nat := 32
  /-- The length that labels do not grow to. -/
  maxLabel : Nat := 100
  /-- The tags that markup stands between. -/
  tags : Markup.Tags := .object
  /-- Without it, markup is shown as text. -/
  readMarkup : Bool := true
  deriving DecidableEq, Repr

/-- What is displayed of a message. -/
structure Display where
  segments : List Segment
  /-- Was markup given up because a block is never closed? -/
  incomplete : Bool := false
  deriving DecidableEq, Repr

namespace Segment

/-- A label or a link of a logical line. -/
def ofItem : Layout.Item → Segment
  | .label t => text t
  | .link t => link t

end Segment

/-- The segments of a token. -/
def tokenSegments (o : DisplayOptions) : Token → List Segment
  | .text run => (Layout.labelsAndLinks o.maxWord o.maxLabel Link.isWeb run).map Segment.ofItem
  | .emoticon code => [.emoticon code]

/-- The segments of one line without markup. -/
def lineSegments (r : Registry) (o : DisplayOptions) (line : Text) : List Segment :=
  (decode r line).flatMap (tokenSegments o)

/-- The segments of a text without markup: those of its lines, with a break between lines. -/
def plainSegments (r : Registry) (o : DisplayOptions) (t : Text) : List Segment :=
  [Segment.lineBreak].intercalate ((lines t).map (lineSegments r o))

/-- Adds what an event of the markup scan shows; an opening tag that is never closed ends the
scan. -/
def showEvent (r : Registry) (o : DisplayOptions) :
    Markup.Event → StateT (List Segment) (Except Markup.Error) Unit
  | .plain t => modify (· ++ plainSegments r o t)
  | .block t => modify (· ++ [.markup t])
  | .unterminated => throw .unterminated

/-- What is displayed of a stored message. -/
def Display.ofMessage (r : Registry) (o : DisplayOptions) (t : Text) : Display :=
  if o.readMarkup then
    match (Markup.scan o.tags (showEvent r o) t).run [] with
    | .ok ((), segments) => { segments }
    | .error .unterminated => { segments := plainSegments r o t, incomplete := true }
  else { segments := plainSegments r o t }

end ChatText
