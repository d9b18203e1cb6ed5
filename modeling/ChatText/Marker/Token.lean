import ChatText.Marker.Basic
import ChatText.Registry.Basic

/-!
# Stored messages as tokens

A stored message is read as literal text and emoticons. A marker counts as an emoticon if the
registry knows its code; everything else is text. A delimiter that opens no such marker is text
as well, and the next marker may start right behind it: in `$x$7$` the second delimiter ends
nothing and opens the marker of 7.
-/

namespace ChatText

/-- A piece of a stored message. -/
inductive Token where
  | text (run : Text)
  | emoticon (code : UInt32)
  deriving DecidableEq, Repr

namespace Token

/-- Puts a symbol in front of the tokens, into the run they start with or into a new one. -/
def consSymbol (c : Char) : List Token → List Token
  | text run :: tokens => text (c :: run) :: tokens
  | tokens => text [c] :: tokens

/-- Gathers neighbouring symbols into runs. -/
def ofPieces : List (Piece UInt32) → List Token
  | [] => []
  | .symbol c :: pieces => consSymbol c (ofPieces pieces)
  | .item code _ :: pieces => emoticon code :: ofPieces pieces

/-- The code, if the token is an emoticon. -/
def code? : Token → Option UInt32
  | text _ => none
  | emoticon code => some code

end Token

/-- The tokens of a stored message. No run is empty, and no two runs are neighbours. -/
def decode (r : Registry) (t : Text) : List Token :=
  Token.ofPieces (Piece.scan (Marker.known r.isKnown) t)

/-- The codes of the emoticons in a stored message, in order. -/
def emoticonCodes (r : Registry) (t : Text) : List UInt32 := (decode r t).filterMap Token.code?

end ChatText
