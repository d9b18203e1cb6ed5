import ChatText.Text.Blank

/-!
# Labels and links

On one logical line, text is shown as labels with links between them. Words that are too long
are cut into chunks, so that the display can break the line there; chunks are gathered into a
label until it would reach its maximal length. Each blank shows as one space.
-/

namespace ChatText

namespace Layout

/-- What is shown on a logical line. -/
inductive Item where
  | label (t : Text)
  | link (t : Text)
  deriving DecidableEq, Repr

/-- What a logical line is made of: chunks of words and whole links. -/
inductive Unbroken where
  | chunk (t : Text)
  | link (t : Text)
  deriving DecidableEq, Repr

/-- A word as a link, or cut into chunks of `maxWord` symbols; zero counts as one. -/
def unbrokenOfWord (maxWord : Nat) (isLink : Text → Bool) (word : Text) : List Unbroken :=
  if word ≠ [] ∧ isLink word then [.link word]
  else (cut (max 1 maxWord) word).map .chunk

/-- The label in hand, unless it is empty. -/
def labelItem (t : Text) : List Item := if t = [] then [] else [.label t]

/-- Gathers chunks into labels. `label` is the label in hand, if anything came before: the next
chunk or link is then set off by a space. -/
def gather (maxLabel : Nat) (label : Option Text) : List Unbroken → List Item
  | [] => labelItem (label.getD [])
  | .link link :: rest =>
    match label with
    | none => .link link :: gather maxLabel (some []) rest
    | some t => .label (t ++ [' ']) :: .link link :: gather maxLabel (some []) rest
  | .chunk chunk :: rest =>
    match label with
    | none => gather maxLabel (some chunk) rest
    | some t =>
      if t ≠ [] ∧ maxLabel ≤ t.length + 1 + chunk.length then
        .label (t ++ [' ']) :: gather maxLabel (some chunk) rest
      else gather maxLabel (some (t ++ ' ' :: chunk)) rest

/-- The labels and links of a text. -/
def labelsAndLinks (maxWord maxLabel : Nat) (isLink : Text → Bool) (t : Text) : List Item :=
  gather maxLabel none ((splitAtBlanks t).flatMap (unbrokenOfWord maxWord isLink))

end Layout

end ChatText
