import ChatText.Text.Basic

/-!
# Markup tags

An embedded markup block stands between an opening and a closing tag. Tags are found without
regard to ASCII case; other symbols have to agree exactly.
-/

namespace ChatText

namespace Markup

/-- The pair of tags around a markup block. -/
structure Tags where
  opening : Text
  closing : Text
  deriving DecidableEq, Repr

namespace Tags

/-- A pair of tags, kept in lower case. -/
def ofTexts (opening closing : Text) : Tags :=
  ⟨opening.map Char.toLower, closing.map Char.toLower⟩

/-- The tags of embedded objects, which are used unless others are asked for. -/
def object : Tags := ofTexts "<object".toList "</object>".toList

end Tags

/-! ## Looking for a tag -/

/-- Does the text start with the tag? -/
def startsWithTag : Text → Text → Bool
  | [], _ => true
  | _ :: _, [] => false
  | a :: tag, c :: t => a.toLower == c.toLower && startsWithTag tag t

/-- A text that starts with a tag is at least as long. -/
theorem length_le_of_startsWithTag {tag t : Text} (h : startsWithTag tag t = true) :
    tag.length ≤ t.length := by
  induction tag generalizing t with
  | nil => exact Nat.zero_le _
  | cons a tag ih =>
    cases t with
    | nil => simp [startsWithTag] at h
    | cons c t =>
      rw [startsWithTag, Bool.and_eq_true] at h
      simpa using ih h.2

/-- The text before the first occurrence of the tag, and the text from it on. -/
def splitAtTag (tag : Text) : Text → Option (Text × Text)
  | [] => if tag = [] then some ([], []) else none
  | c :: t =>
    if startsWithTag tag (c :: t) then some ([], c :: t)
    else (splitAtTag tag t).map fun (before, rest) => (c :: before, rest)

/-- A split loses nothing. -/
theorem append_of_splitAtTag {tag t before rest : Text}
    (h : splitAtTag tag t = some (before, rest)) : before ++ rest = t := by
  induction t generalizing before with
  | nil =>
    simp only [splitAtTag, Option.ite_none_right_eq_some, Option.some.injEq, Prod.mk.injEq] at h
    simp [← h.2.1, ← h.2.2]
  | cons c t ih =>
    rw [splitAtTag] at h
    split at h
    · simp only [Option.some.injEq, Prod.mk.injEq] at h
      simp [← h.1, ← h.2]
    · simp only [Option.map_eq_some_iff, Prod.exists, Prod.mk.injEq] at h
      obtain ⟨b, r, hsplit, rfl, rfl⟩ := h
      rw [List.cons_append, ih hsplit]

/-- What follows the split starts with the tag. -/
theorem startsWithTag_of_splitAtTag {tag t before rest : Text}
    (h : splitAtTag tag t = some (before, rest)) : startsWithTag tag rest = true := by
  induction t generalizing before with
  | nil =>
    simp only [splitAtTag, Option.ite_none_right_eq_some, Option.some.injEq, Prod.mk.injEq] at h
    rw [h.1]
    rfl
  | cons c t ih =>
    rw [splitAtTag] at h
    split at h
    · rename_i hstart
      simp only [Option.some.injEq, Prod.mk.injEq] at h
      rw [← h.2, hstart]
    · simp only [Option.map_eq_some_iff, Prod.exists, Prod.mk.injEq] at h
      obtain ⟨b, r, hsplit, rfl, rfl⟩ := h
      exact ih hsplit

end Markup

end ChatText
