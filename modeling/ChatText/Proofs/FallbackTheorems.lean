import ChatText.Proofs.DisplayTheorems
import ChatText.Proofs.EventTheorems
import Mathlib.Data.List.Basic

/-!
# Giving markup up

When the scan meets an opening tag that is never closed, the visitor may have collected the segments
of any number of plain parts and whole blocks. Nothing of that is left in the display: markup is
given up exactly if such a tag is among the events of the message (`incomplete_ofMessage_iff`), and
what is shown then is what is shown where markup is not read at all (`fallback_leaves_no_trace`).
-/

namespace ChatText

open Markup (Slice slices events)

/-- An opening tag that is never closed is reported for the slice that it is. -/
theorem Markup.unterminated_mem_events_iff (tags : Tags) (t : Text) :
    .unterminated ∈ events tags t ↔ (slices tags t).any Slice.isOpening = true := by
  rw [events_eq_map, List.mem_map, List.any_eq_true]
  refine exists_congr fun s => and_congr_right fun _ => ?_
  cases s <;> simp [Slice.event, Slice.isOpening]

variable (r : Registry) (o : DisplayOptions)

/-- Where markup is not read, a message is shown as plain text. -/
theorem ofMessage_of_not_read (h : o.readMarkup = false) (t : Text) :
    Display.ofMessage r o t = { segments := plainSegments r o t } := by
  rw [ofMessage_eq, if_neg (by simp [h])]

/-- Markup is given up where it is read and a block is never closed. -/
theorem incomplete_ofMessage_iff (t : Text) :
    (Display.ofMessage r o t).incomplete = true
      ↔ o.readMarkup = true ∧ .unterminated ∈ events o.tags t := by
  rw [Markup.unterminated_mem_events_iff, ofMessage_eq]
  split
  · split <;> simp [*]
  · simp [*]

/-- The same options, but markup is shown as text. -/
def DisplayOptions.withoutMarkup (o : DisplayOptions) : DisplayOptions :=
  { o with readMarkup := false }

/-- Reading markup makes no difference to how plain text is shown. -/
theorem segments_withoutMarkup (t : Text) :
    (Display.ofMessage r o.withoutMarkup t).segments = plainSegments r o t := by
  rw [ofMessage_of_not_read r o.withoutMarkup rfl]
  rfl

/-- What is shown for an event of the scan: a plain part as if it were a message without markup, and
a block as it is reported. -/
def eventSegments : Markup.Event → List Segment
  | .plain t => (Display.ofMessage r o.withoutMarkup t).segments
  | .block t => [.markup t]
  | .unterminated => []

theorem eventSegments_event (s : Slice) : eventSegments r o s.event = sliceSegments r o s := by
  cases s with
  | plain t => exact segments_withoutMarkup r o t
  | block t => rfl
  | opening t => rfl

/-- **The fallback leaves no trace.** If markup is read and a block is never closed, the display is
marked incomplete and has the segments of the message without markup. Otherwise it is complete, and
where markup is read it has the segments of all events, one event after the other. -/
theorem fallback_leaves_no_trace (t : Text) :
    (o.readMarkup = true ∧ .unterminated ∈ events o.tags t →
        (Display.ofMessage r o t).incomplete = true
          ∧ (Display.ofMessage r o t).segments
            = (Display.ofMessage r o.withoutMarkup t).segments)
      ∧ (¬ (o.readMarkup = true ∧ .unterminated ∈ events o.tags t) →
        (Display.ofMessage r o t).incomplete = false
          ∧ (o.readMarkup = true →
            (Display.ofMessage r o t).segments
              = (events o.tags t).flatMap (eventSegments r o))) := by
  constructor
  · intro hopen
    refine ⟨(incomplete_ofMessage_iff r o t).2 hopen, ?_⟩
    rw [Markup.unterminated_mem_events_iff] at hopen
    rw [ofMessage_eq, if_pos hopen.1, if_pos hopen.2, segments_withoutMarkup]
  · intro hclosed
    refine ⟨?_, fun hread => ?_⟩
    · rw [← Bool.not_eq_true, incomplete_ofMessage_iff]
      exact hclosed
    · have hslices : ¬ (slices o.tags t).any Slice.isOpening = true := by
        rw [← Markup.unterminated_mem_events_iff]
        exact fun hopen => hclosed ⟨hread, hopen⟩
      rw [ofMessage_eq, if_pos hread, if_neg hslices, Markup.events_eq_map, List.flatMap_map]
      exact List.flatMap_congr fun s _ => (eventSegments_event r o s).symm

end ChatText
