import ChatText.Proofs.DisplayTheorems
import ChatText.Proofs.PriceTheorems

/-!
# What is charged is what is shown

The price of a message is read off the message as a whole, its emoticons are shown slice by slice
and line by line. The two agree if no marker can reach over the border of a markup block, which the
tags decide: the first symbol of the opening tag and the last one of the closing tag belong to no
marker. Line borders never matter, and neither do the newlines that a block loses.
-/

namespace ChatText

open Markup (Tags Slice slices sliceBlocks)

variable (r : Registry) (o : DisplayOptions)

/-! ## Codes of segments -/

/-- The codes of the emoticons that a segment shows or, in a markup block, holds. -/
def Segment.codes : Segment → List UInt32
  | .emoticon code => [code]
  | .markup t => emoticonCodes r t
  | .text _ | .link _ | .lineBreak => []

theorem codes_tokenSegments (token : Token) :
    (tokenSegments o token).flatMap (Segment.codes r) = token.code?.toList := by
  cases token with
  | emoticon code => rfl
  | text run =>
    rw [tokenSegments, List.flatMap_map, Token.code?, Option.toList_none, List.flatMap_eq_nil_iff]
    intro item _
    cases item <;> rfl

theorem codes_lineSegments (line : Text) :
    (lineSegments r o line).flatMap (Segment.codes r) = emoticonCodes r line := by
  rw [lineSegments, List.flatMap_assoc, emoticonCodes, List.filterMap_eq_flatMap_toList]
  simp only [codes_tokenSegments]

/-- As plain text a message shows the codes that are charged. -/
theorem codes_plainSegments (t : Text) :
    (plainSegments r o t).flatMap (Segment.codes r) = emoticonCodes r t := by
  -- a line break shows no code
  have hbreak : [Segment.lineBreak].flatMap (Segment.codes r) = [] := rfl
  rw [plainSegments, flatMap_intercalate, hbreak, nil_intercalate, List.map_map,
    ← List.flatMap_def, ← flatMap_emoticonCodes_lines]
  exact List.flatMap_congr fun line _ => codes_lineSegments r o line

/-! ## Markup blocks -/

/-- No marker reaches over the border of a block. -/
def Markup.Tags.ApartFromMarkers (tags : Tags) : Prop :=
  (∀ c ∈ tags.opening.head?, ¬ Marker.IsSymbol c)
    ∧ ∀ c ∈ tags.closing.getLast?, ¬ Marker.IsSymbol c

instance (tags : Tags) : Decidable tags.ApartFromMarkers :=
  decidable_of_iff (tags.opening.head?.all (fun c => ¬ Marker.IsSymbol c) = true
      ∧ tags.closing.getLast?.all (fun c => ¬ Marker.IsSymbol c) = true) <| by
    simp [Tags.ApartFromMarkers, Option.all_eq_true]

/-- Case makes no difference to the symbols of markers. -/
theorem Marker.isSymbol_toLower_iff (c : Char) : IsSymbol c.toLower ↔ IsSymbol c := by
  rcases Markup.toLower_cases c with heq | ⟨hge, hle, heq⟩
  · rw [heq]
  · -- neither a capital nor its small letter belongs to a marker
    rw [isSymbol_iff_toNat, isSymbol_iff_toNat, heq]
    omega

theorem Marker.isSymbol_congr {a c : Char} (h : c.toLower = a.toLower) :
    IsSymbol c ↔ IsSymbol a := by
  rw [← isSymbol_toLower_iff c, h, isSymbol_toLower_iff]

/-- If the tags are apart from markers, a block is cut out of the text at seams. -/
theorem seams_of_find_block {tags : Tags} (hopening : tags.opening ≠ [])
    (hclosing : tags.closing ≠ []) (hapart : tags.ApartFromMarkers) {t before source after : Text}
    (h : Markup.find tags t = .block before source after) :
    Marker.Seam before (source ++ after) ∧ Marker.Seam source after := by
  obtain ⟨-, hstart, inside, closing, rfl, hend⟩ := Markup.of_find_block h
  constructor
  · -- the block starts with the first symbol of the opening tag
    refine Or.inr fun c hc => ?_
    obtain ⟨a, opening, hopen⟩ := List.exists_cons_of_ne_nil hopening
    obtain ⟨rest, hrest⟩ := List.head?_eq_some_iff.1 hc
    rw [hrest, hopen, Markup.startsWithTag, Bool.and_eq_true, beq_iff_eq] at hstart
    rw [Marker.isSymbol_congr hstart.1.symm]
    exact hapart.1 a (by rw [hopen]; rfl)
  · -- and ends with the last symbol of the closing one
    refine Or.inl fun c hc => ?_
    have ha := List.getLast?_eq_some_getLast hclosing
    have hlast := congrArg List.getLast? hend
    rw [List.getLast?_map, List.getLast?_map, ha, Option.map_some, Option.map_eq_some_iff] at hlast
    obtain ⟨x, hx, hcase⟩ := hlast
    rw [List.getLast?_append, hx] at hc
    obtain rfl : x = c := by simpa using hc
    rw [Marker.isSymbol_congr hcase]
    exact hapart.2 _ ha

/-- The codes of the slices are the codes of the text, unless a block is left open. -/
theorem flatMap_emoticonCodes_sliceBlocks {tags : Tags} (hopening : tags.opening ≠ [])
    (hclosing : tags.closing ≠ []) (hapart : tags.ApartFromMarkers) (t : Text)
    (hclosed : ∀ s ∈ sliceBlocks tags hclosing t, s.isOpening = false) :
    (sliceBlocks tags hclosing t).flatMap (fun s => emoticonCodes r s.source)
      = emoticonCodes r t := by
  fun_induction sliceBlocks tags hclosing t with
  | case1 t h => simp [Slice.source]
  | case2 t before after h => simp [Slice.isOpening] at hclosed
  | case3 t before source after h ih =>
    rw [List.forall_mem_cons, List.forall_mem_cons] at hclosed
    obtain ⟨hbefore, hafter⟩ := seams_of_find_block hopening hclosing hapart h
    rw [List.flatMap_cons, List.flatMap_cons, ih hclosed.2.2, ← (Markup.of_find_block h).1,
      emoticonCodes_append r hbefore, emoticonCodes_append r hafter]
    rfl

theorem flatMap_emoticonCodes_slices {tags : Tags} (hapart : tags.ApartFromMarkers) (t : Text)
    (hclosed : ∀ s ∈ slices tags t, s.isOpening = false) :
    (slices tags t).flatMap (fun s => emoticonCodes r s.source) = emoticonCodes r t := by
  rw [slices] at hclosed ⊢
  split at hclosed
  · rename_i hempty
    rw [dif_pos hempty]
    simp [Slice.source]
  · rename_i htags
    rw [dif_neg htags]
    exact flatMap_emoticonCodes_sliceBlocks r (fun h => htags (.inl h)) _ hapart t hclosed

/-- A slice that is no open tag shows the codes in it. -/
theorem codes_sliceSegments {s : Slice} (hs : s.isOpening = false) :
    (sliceSegments r o s).flatMap (Segment.codes r) = emoticonCodes r s.source := by
  cases s with
  | plain t => exact codes_plainSegments r o t
  | block t =>
    rw [sliceSegments, List.flatMap_singleton, Segment.codes, emoticonCodes_spaceNewlines]
    rfl
  | opening t => cases hs

/-- **What is charged is what is shown.** The codes shown by the segments of a message, those in
its markup blocks included, are the codes of the message in order; each has an emoticon, and the
price is the exact sum of their prices where this is below `2 ^ 64`. It is for every text of less
than `3 * (2 ^ 32 + 2)` symbols, and beyond `2 ^ 64` the price wraps around. -/
theorem codes_segments_eq_charged (t : Text)
    (hapart : o.readMarkup = true → o.tags.ApartFromMarkers) :
    (Display.ofMessage r o t).segments.flatMap (Segment.codes r) = emoticonCodes r t
      ∧ ∃ emoticons : List Emoticon,
        ((Display.ofMessage r o t).segments.flatMap (Segment.codes r)).map r.emoticon?
            = emoticons.map some
          ∧ let total := (emoticons.map (·.price.toNat)).sum
            (total < 2 ^ 64 → price r t = total)
              ∧ (t.length < 3 * (2 ^ 32 + 2) → total < 2 ^ 64)
              ∧ price r t = total % 2 ^ 64 := by
  have hcodes :
      (Display.ofMessage r o t).segments.flatMap (Segment.codes r) = emoticonCodes r t := by
    rcases segments_ofMessage_cases r o t with hplain | ⟨hread, hclosed, hslices⟩
    · rw [hplain, codes_plainSegments]
    · rw [hslices, List.flatMap_assoc, ← flatMap_emoticonCodes_slices r (hapart hread) t hclosed]
      exact List.flatMap_congr fun s hs => codes_sliceSegments r o (hclosed s hs)
  obtain ⟨emoticons, hemoticons, hsum⟩ := exists_emoticons_sumOfPrices r t
  have hprice := price_eq_mod r t
  rw [hsum] at hprice
  refine ⟨hcodes, emoticons, by rw [hcodes, hemoticons], fun hlt => ?_, fun hlength => ?_, hprice⟩
  · rw [hprice, Nat.mod_eq_of_lt hlt]
  · rw [← hsum]
    exact sumOfPrices_lt r hlength

/-- The tags of embedded objects are apart from markers: those outside the block, one of them right
behind it, and the one inside are shown and charged. -/
theorem codes_segments_eq_charged_object :
    let e : Emoticon := ⟨1, 16, 16, 3, ⟨6, 0⟩⟩
    let r : Registry := { emoticons := [e] }
    let t := "$1$<OBJECT 2$\n$1$</object>$1$".toList
    Tags.object.ApartFromMarkers
      ∧ (Display.ofMessage r {} t).segments.flatMap (Segment.codes r) = [1, 1, 1]
      ∧ price r t = 9 := by
  intro e r t
  have hapart : Tags.object.ApartFromMarkers := by decide
  obtain ⟨hcodes, emoticons, hemoticons, hprice, -⟩ :=
    codes_segments_eq_charged r {} t fun _ => hapart
  have hthree : emoticons = [e, e, e] := by
    apply List.map_injective_iff.2 (Option.some_injective Emoticon)
    rw [← hemoticons, hcodes]
    decide
  subst hthree
  exact ⟨hapart, hcodes.trans (by decide), hprice (by decide)⟩

end ChatText
