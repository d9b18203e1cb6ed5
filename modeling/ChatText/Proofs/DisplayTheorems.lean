import ChatText.Message.Segment
import ChatText.Proofs.MarkupSlices

/-!
# What is displayed, slice by slice

The visitor of a display collects segments until it meets an opening tag that is never closed.
`ofMessage_eq` says what comes of that for a whole message: the segments of its slices in order, or
the segments of the message as plain text.
-/

namespace ChatText

open Markup (Slice slices)

/-- Is the slice an opening tag that is never closed? -/
def Markup.Slice.isOpening : Slice → Bool
  | opening _ => true
  | plain _ | block _ => false

variable (r : Registry) (o : DisplayOptions)

/-- The segments of a slice; an opening tag that is never closed has none. -/
def sliceSegments : Slice → List Segment
  | .plain s => plainSegments r o s
  | .block s => [.markup (spaceNewlines s)]
  | .opening _ => []

/-- The visitor adds the segments of a slice, or gives up at an opening tag. -/
theorem run_showEvent (s : Slice) (segments : List Segment) :
    (showEvent r o s.event).run segments
      = if s.isOpening then .error .unterminated
        else .ok ((), segments ++ sliceSegments r o s) := by
  cases s <;> rfl

/-- Over a list of slices the visitor gives up if one of them is an opening tag. -/
theorem run_forM_showEvent (ss : List Slice) (segments : List Segment) :
    (forM ss fun s => showEvent r o s.event).run segments
      = if ss.any Slice.isOpening then .error .unterminated
        else .ok ((), segments ++ ss.flatMap (sliceSegments r o)) := by
  induction ss generalizing segments with
  | nil =>
    rw [List.flatMap_nil, List.append_nil]
    rfl
  | cons s ss ih =>
    rw [List.forM_cons, StateT.run_bind, run_showEvent, List.any_cons, List.flatMap_cons]
    cases hs : s.isOpening with
    | true => rfl
    | false =>
      have hnext := ih (segments ++ sliceSegments r o s)
      rw [List.append_assoc] at hnext
      exact hnext

/-- What is displayed of a message: its slices, or, where markup is not read or is given up, the
message as plain text. -/
theorem ofMessage_eq (t : Text) :
    Display.ofMessage r o t
      = if o.readMarkup then
          if (slices o.tags t).any Slice.isOpening then
            { segments := plainSegments r o t, incomplete := true }
          else { segments := (slices o.tags t).flatMap (sliceSegments r o) }
        else { segments := plainSegments r o t } := by
  rw [Display.ofMessage]
  split
  · rw [Markup.scan_eq_forM, run_forM_showEvent]
    split
    · rename_i hrun
      split at hrun
      · cases hrun
      · rename_i hopening
        rw [Except.ok.injEq, Prod.mk.injEq] at hrun
        rw [if_neg hopening, ← hrun.2, List.nil_append]
    · rename_i hrun
      split at hrun
      · rename_i hopening
        rw [if_pos hopening]
      · cases hrun
  · rfl

/-- The segments are those of the slices, none of them an opening tag, or those of plain text. -/
theorem segments_ofMessage_cases (t : Text) :
    (Display.ofMessage r o t).segments = plainSegments r o t
      ∨ o.readMarkup = true ∧ (∀ s ∈ slices o.tags t, s.isOpening = false)
        ∧ (Display.ofMessage r o t).segments = (slices o.tags t).flatMap (sliceSegments r o) := by
  rw [ofMessage_eq]
  split
  · rename_i hread
    split
    · exact Or.inl rfl
    · rename_i hopening
      exact Or.inr ⟨hread, by simpa using hopening, rfl⟩
  · exact Or.inl rfl

end ChatText
