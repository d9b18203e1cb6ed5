import ChatText.Text.Basic

/-!
# Taking items out of a text

A recogniser looks at the start of a text and says whether an item is written there, and in
how many symbols. `scan` walks a text from the left: where the recogniser finds an item it
takes the item whole and goes on behind it, elsewhere it takes one symbol. So the items are
the leftmost ones that do not overlap.

`scan_cons_of_none` and `scan_cons_of_some` say what a step does, and `flatMap_source_scan`
that nothing of the text is lost.
-/

namespace ChatText

/-- What a scan takes from a text: a symbol, or an item with the symbols it was written in. -/
inductive Piece (α : Type) where
  | symbol (c : Char)
  | item (value : α) (source : Text)
  deriving DecidableEq, Repr

/-- The item written at the start of a text, if there is one, and the number of its symbols. -/
abbrev Recogniser (α : Type) := Text → Option (α × Nat)

namespace Piece

variable {α : Type}

/-- The symbols a piece was taken from. -/
def source : Piece α → Text
  | symbol c => [c]
  | item _ s => s

/-- The symbol, if the piece is one. -/
def symbol? : Piece α → Option Char
  | symbol c => some c
  | item _ _ => none

/-! ## The scan -/

/-- The scan with `skip` symbols left of the item that was found last. -/
def scanFrom (recognise : Recogniser α) : Nat → Text → List (Piece α)
  | _, [] => []
  | skip + 1, _ :: t => scanFrom recognise skip t
  | 0, c :: t =>
    match recognise (c :: t) with
    | none => symbol c :: scanFrom recognise 0 t
    | some (a, n) => item a (c :: t.take (n - 1)) :: scanFrom recognise (n - 1) t

/-- The pieces of a text, from the left. An item takes at least one symbol. -/
def scan (recognise : Recogniser α) (t : Text) : List (Piece α) := scanFrom recognise 0 t

/-- Symbols still to be skipped are dropped. -/
theorem scanFrom_eq_scan_drop (recognise : Recogniser α) (skip : Nat) (t : Text) :
    scanFrom recognise skip t = scan recognise (t.drop skip) := by
  induction t generalizing skip with
  | nil => cases skip <;> rfl
  | cons c t ih =>
    cases skip with
    | zero => rfl
    | succ skip => rw [scanFrom, ih, List.drop_succ_cons]

@[simp] theorem scan_nil (recognise : Recogniser α) : scan recognise [] = [] := rfl

theorem scan_cons_of_none {recognise : Recogniser α} {c : Char} {t : Text}
    (h : recognise (c :: t) = none) :
    scan recognise (c :: t) = symbol c :: scan recognise t := by
  rw [scan, scanFrom, h]
  rfl

theorem scan_cons_of_some {recognise : Recogniser α} {c : Char} {t : Text} {a : α} {n : Nat}
    (h : recognise (c :: t) = some (a, n)) :
    scan recognise (c :: t)
      = item a (c :: t.take (n - 1)) :: scan recognise (t.drop (n - 1)) := by
  rw [scan, scanFrom, h]
  simp only [scanFrom_eq_scan_drop]

/-- The pieces hold the whole text, in order. -/
theorem flatMap_source_scan (recognise : Recogniser α) (t : Text) :
    (scan recognise t).flatMap source = t := by
  suffices ∀ n (t : Text), t.length ≤ n → (scan recognise t).flatMap source = t from
    this t.length t (Nat.le_refl _)
  intro n
  induction n with
  | zero =>
    intro t ht
    rw [List.length_eq_zero_iff.1 (Nat.le_zero.1 ht)]
    rfl
  | succ n ih =>
    intro t ht
    cases t with
    | nil => rfl
    | cons c t =>
      have hlen : t.length ≤ n := by simpa using ht
      cases h : recognise (c :: t) with
      | none => simp [scan_cons_of_none h, source, ih t hlen]
      | some p =>
        obtain ⟨a, m⟩ := p
        have hdrop : (t.drop (m - 1)).length ≤ n := by
          rw [List.length_drop]
          omega
        simp [scan_cons_of_some h, source, ih _ hdrop]

end Piece

/-! ## Replacing a literal text -/

/-- Recognises `pattern` itself. The empty pattern is found nowhere. -/
def literal (pattern : Text) : Recogniser Unit := fun t =>
  if pattern ≠ [] ∧ pattern.isPrefixOf t then some ((), pattern.length) else none

/-- `t` with every occurrence of `pattern` replaced, taken from the left without overlap. -/
def replaceAll (pattern replacement t : Text) : Text :=
  (Piece.scan (literal pattern) t).flatMap fun
    | .symbol c => [c]
    | .item _ _ => replacement

end ChatText
