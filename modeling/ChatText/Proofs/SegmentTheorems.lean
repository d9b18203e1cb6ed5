import ChatText.Proofs.DisplayTheorems
import ChatText.Proofs.LabelTheorems
import ChatText.Proofs.TokenTheorems

/-!
# Segments and the text they show

A message is cut at markup blocks, at newlines, at markers and at blanks before it is shown, and if
a block is never closed it is cut once more from the start. On each way the segments show
consecutive parts of the message (`parted_segments`). So nothing of it is lost but blanks, and
every newline outside of markup is a line break.
-/

namespace ChatText

open Markup (slices)

namespace Segment

/-- What of a message a segment shows: a label shows what is not blank, a markup block has spaces
for newlines, and an emoticon was written as a marker. -/
def Shows : Segment → Text → Prop
  | text t, s => withoutBlanks t = withoutBlanks s ∧ '\n' ∉ s
  | link t, s => t = s ∧ '\n' ∉ s
  | emoticon code, s => Marker.Denotes code s
  | markup t, s => t = spaceNewlines s
  | lineBreak, s => s = ['\n']

/-- A way to write a segment; there are many for an emoticon, as its digits may start with zeros. -/
def WrittenAs : Segment → Text → Prop
  | text t, w | link t, w | markup t, w => w = t
  | emoticon code, w => Marker.Denotes code w
  | lineBreak, w => w = ['\n']

/-- Of what a segment shows, the symbols that are not in a markup block. -/
def outsideMarkup : Segment → Text → Text
  | markup _, _ => []
  | text _, s | link _, s | emoticon _, s | lineBreak, s => s

/-- Written out, a segment is what it shows but for blanks. -/
theorem Shows.exists_writtenAs {segment : Segment} {s : Text} (h : segment.Shows s) :
    ∃ w, segment.WrittenAs w ∧ withoutBlanks w = withoutBlanks s := by
  cases segment with
  | text t => exact ⟨t, rfl, h.1⟩
  | link t => exact ⟨t, rfl, congrArg withoutBlanks h.1⟩
  | emoticon code => exact ⟨s, h, rfl⟩
  | markup t => exact ⟨t, rfl, by rw [show t = spaceNewlines s from h, withoutBlanks_spaceNewlines]⟩
  | lineBreak => exact ⟨s, h, rfl⟩

/-- Outside of markup, line breaks and nothing else show a newline. -/
theorem Shows.count_newline {segment : Segment} {s : Text} (h : segment.Shows s) :
    (segment.outsideMarkup s).count '\n' = [segment].count .lineBreak := by
  cases segment with
  | text t => simpa [outsideMarkup, List.count_eq_zero] using h.2
  | link t => simpa [outsideMarkup, List.count_eq_zero] using h.2
  | emoticon code =>
    -- no symbol of a marker is a newline
    obtain ⟨d, hd, -, rfl⟩ := h
    have hnot : '\n' ∉ Marker.enclose d := fun hmem =>
      absurd (Marker.isSymbol_of_mem_enclose hd hmem) (by decide)
    simpa [outsideMarkup, List.count_eq_zero] using hnot
  | markup t => rfl
  | lineBreak =>
    obtain rfl : s = ['\n'] := h
    rfl

end Segment

/-! ## Parts of a message -/

variable (r : Registry) (o : DisplayOptions)

theorem parted_tokenSegments {token : Token} {s : Text} (h : token.ReadFrom Marker.Denotes s)
    (hs : '\n' ∉ s) : Parted Segment.Shows (tokenSegments o token) s := by
  cases token with
  | emoticon code => exact .single h
  | text run =>
    obtain rfl : s = run := h
    rw [tokenSegments, List.map_eq_flatMap]
    refine (Layout.parted_labelsAndLinks o.maxWord o.maxLabel Link.isWeb s).flatMap ?_
    intro item part hitem hpart
    have hnewline : '\n' ∉ part := fun h => hs (hpart.subset h)
    cases item with
    | label t => exact .single ⟨hitem, hnewline⟩
    | link t => exact .single ⟨hitem, hnewline⟩

theorem parted_lineSegments {line : Text} (hline : '\n' ∉ line) :
    Parted Segment.Shows (lineSegments r o line) line :=
  (parted_decode r line).flatMap fun _ _ hread hs =>
    parted_tokenSegments o hread fun h => hline (hs.subset h)

/-- As plain text a message is shown line by line. -/
theorem parted_plainSegments (t : Text) : Parted Segment.Shows (plainSegments r o t) t := by
  have hbreak : Segment.Shows .lineBreak ['\n'] := rfl
  have hlines : Parted Segment.Shows (plainSegments r o t) (unlines (lines t)) :=
    .intercalate hbreak fun line hline =>
      parted_lineSegments r o fun hmem => (of_mem_lines hline hmem).2 rfl
  rwa [unlines_lines] at hlines

/-- The segments of a message show consecutive parts of it, on each of the three ways. -/
theorem parted_segments (t : Text) :
    Parted Segment.Shows (Display.ofMessage r o t).segments t := by
  rcases segments_ofMessage_cases r o t with hplain | ⟨-, hclosed, hslices⟩
  · rw [hplain]
    exact parted_plainSegments r o t
  · rw [hslices]
    have hparts : Parted Segment.Shows ((slices o.tags t).flatMap (sliceSegments r o))
        ((slices o.tags t).flatMap Markup.Slice.source) := by
      refine .flatMap_congr fun s hs => ?_
      cases s with
      | plain s => exact parted_plainSegments r o s
      | block s => exact .single rfl
      | opening s => cases hclosed _ hs
    rwa [Markup.flatMap_source_slices] at hparts

/-! ## Nothing is lost -/

theorem exists_writings_of_shows {segments : List Segment} {sources : List Text}
    (h : List.Forall₂ Segment.Shows segments sources) :
    ∃ writings, List.Forall₂ Segment.WrittenAs segments writings
      ∧ withoutBlanks writings.flatten = withoutBlanks sources.flatten := by
  induction h with
  | nil => exact ⟨[], .nil, rfl⟩
  | cons hsegment _ ih =>
    obtain ⟨w, hw, hblanks⟩ := hsegment.exists_writtenAs
    obtain ⟨writings, hwritings, hflat⟩ := ih
    refine ⟨w :: writings, .cons hw hwritings, ?_⟩
    rw [List.flatten_cons, List.flatten_cons, withoutBlanks_append, withoutBlanks_append, hblanks,
      hflat]

theorem count_lineBreak_of_shows {segments : List Segment} {sources : List Text}
    (h : List.Forall₂ Segment.Shows segments sources) :
    segments.count .lineBreak
      = (List.zipWith Segment.outsideMarkup segments sources).flatten.count '\n' := by
  induction h with
  | nil => rfl
  | @cons segment s segments sources hsegment _ ih =>
    rw [List.zipWith_cons_cons, List.flatten_cons, List.count_append, hsegment.count_newline, ← ih,
      ← List.count_append, List.singleton_append]

/-- **The segments lose nothing.** Each segment shows a part of the message, and the parts in order
are the message. The segments can be written so that they are the message but for blanks, and there
are as many line breaks as newlines in the parts that are not markup blocks. -/
theorem exists_sources_segments (t : Text) :
    ∃ sources writings,
      List.Forall₂ Segment.Shows (Display.ofMessage r o t).segments sources
        ∧ sources.flatten = t
        ∧ List.Forall₂ Segment.WrittenAs (Display.ofMessage r o t).segments writings
        ∧ withoutBlanks writings.flatten = withoutBlanks t
        ∧ (Display.ofMessage r o t).segments.count .lineBreak
            = (List.zipWith Segment.outsideMarkup (Display.ofMessage r o t).segments
                sources).flatten.count '\n' := by
  obtain ⟨sources, hshows, hflat⟩ := parted_segments r o t
  obtain ⟨writings, hwritings, hblanks⟩ := exists_writings_of_shows hshows
  exact ⟨sources, writings, hshows, hflat, hwritings, by rw [hblanks, hflat],
    count_lineBreak_of_shows hshows⟩

end ChatText
