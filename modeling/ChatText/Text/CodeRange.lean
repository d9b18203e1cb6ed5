/-!
# Tables of code ranges

A property of symbols is carried as the list of the closed ranges of code points that have it,
in ascending order, so that a lookup stops at the first range beyond the symbol.
-/

namespace ChatText

/-- Closed ranges of code points, ascending and apart. -/
abbrev CodeRanges := List (Nat × Nat)

namespace CodeRanges

/-- Is `n` in one of the ranges? The search ends at the first range that starts above `n`. -/
def has : CodeRanges → Nat → Bool
  | [], _ => false
  | (first, last) :: rest, n => if n < first then false else n ≤ last || has rest n

/-- How many code points the ranges hold. -/
def size : CodeRanges → Nat
  | [] => 0
  | (first, last) :: rest => last + 1 - first + size rest

end CodeRanges

end ChatText
