import ChatText.Message.Transform

/-!
# What the command is asked to do

Messages are printed, in one of several views, or changed where they are. What is done with a
request does not depend on how the arguments that made it were read.
-/

namespace ChatText

namespace Command

/-- What is printed of a message. -/
inductive View where
  /-- The message itself. -/
  | text
  /-- The price of its emoticons. -/
  | price
  /-- Its segments, one per line. -/
  | segments
  deriving DecidableEq, Repr

/-- What the command is asked to do. -/
inductive Request where
  | version
  | help
  /-- Print the message on the standard input. -/
  | printInput (tr : Transform) (view : View)
  /-- Print the messages in files, one after the other. -/
  | printFiles (tr : Transform) (view : View) (files : List Text)
  /-- Change files where they are. -/
  | updateFiles (tr : Transform) (files : List Text)
  deriving DecidableEq, Repr

end Command

end ChatText
