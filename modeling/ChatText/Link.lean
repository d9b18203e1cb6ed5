import ChatText.Text.Basic

/-!
# Links

A word is a link by the way it starts. On the screen a long link is abbreviated, so for layout
a link counts with its visible length.
-/

namespace ChatText

namespace Link

/-- What a link starts with. -/
def openings : List Text :=
  ["http://".toList, "https://".toList, "ftp://".toList, "www.".toList]

/-- Does the word start like a web link? Upper and lower case differ. -/
def isWeb (word : Text) : Bool := openings.any (·.isPrefixOf word)

/-- The number of symbols up to which a link is shown in full. -/
def maxVisible : Nat := 45

/-- The number of last symbols that an abbreviated link keeps. -/
def keptEnd : Nat := 10

/-- What stands for the part of a link that is left out. -/
def filler : Text := "...".toList

/-- The number of symbols that a link of `n` symbols takes on the screen. -/
def visibleLength (n : Nat) : Nat := min n maxVisible

/-- A link as it is shown: in full, or its start and its end around the filler. -/
def visibleText (link : Text) : Text :=
  if link.length ≤ maxVisible then link
  else
    link.take (maxVisible - keptEnd - filler.length) ++ filler
      ++ link.drop (link.length - keptEnd)

/-- What is shown of a link takes its visible length. -/
theorem length_visibleText (link : Text) :
    (visibleText link).length = visibleLength link.length := by
  unfold visibleText visibleLength maxVisible
  split
  · omega
  · simp only [List.length_append, List.length_take, List.length_drop, keptEnd, filler,
      show ("...".toList).length = 3 from rfl]
    omega

/-- The address of a link: one that starts with `www.` gains a scheme. -/
def address (link : Text) : Text :=
  if "www.".toList.isPrefixOf link then "http://".toList ++ link else link

end Link

end ChatText
