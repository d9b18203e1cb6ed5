import ChatText.Marker.Basic
import ChatText.Registry.Basic

/-!
# The price of a stored message

The price is read off the markers alone. The search for them goes from delimiter to delimiter and
looks at what stands between two that follow each other; if that is no known code, the second one
may open the next marker. Behind a marker the search starts anew.

The total is kept in 64 bits and wraps around.
-/

namespace ChatText

namespace Marker

/-- The known code that the text between two delimiters denotes. -/
def knownCode? (isKnown : UInt32 → Bool) (between : Text) : Option UInt32 :=
  if between ≠ [] ∧ between.all Char.isDigit then (decimalValue32? between).filter isKnown
  else none

/-- The code of the first marker of a known code, and what stands behind the marker. Once there was
a delimiter, `read?` holds what came after the last one, from back to front. -/
def findFrom (isKnown : UInt32 → Bool) : (read? : Option Text) → Text → Option (UInt32 × Text)
  | _, [] => none
  | read?, c :: t =>
    if c = delimiter then
      match read?.bind fun read => knownCode? isKnown read.reverse with
      | some code => some (code, t)
      | none => findFrom isKnown (some []) t
    else findFrom isKnown (read?.map (c :: ·)) t

/-- The code of the first marker of a known code in a text, and what stands behind the marker. -/
def find (isKnown : UInt32 → Bool) (t : Text) : Option (UInt32 × Text) := findFrom isKnown none t

theorem length_lt_of_findFrom {isKnown : UInt32 → Bool} {read? : Option Text} {t rest : Text}
    {code : UInt32} (h : findFrom isKnown read? t = some (code, rest)) :
    rest.length < t.length := by
  induction t generalizing read? with
  | nil => cases h
  | cons c t ih =>
    rw [findFrom] at h
    split at h
    · split at h
      · cases h
        exact Nat.lt_succ_self _
      · exact Nat.lt_succ_of_lt (ih h)
    · exact Nat.lt_succ_of_lt (ih h)

end Marker

/-- The total with the prices of the known markers in a text added to it. -/
def priceFrom (r : Registry) (total : UInt64) (t : Text) : UInt64 :=
  match _h : Marker.find r.isKnown t with
  | none => total
  | some (code, rest) => priceFrom r (total + (r.priceOf code).toUInt64) rest
termination_by t.length
decreasing_by exact Marker.length_lt_of_findFrom _h

/-- What the emoticons of a stored message cost together. -/
def price (r : Registry) (t : Text) : Nat := (priceFrom r 0 t).toNat

end ChatText
