import ChatText.Proofs.DecodeTheorems
import ChatText.Proofs.DisplayTheorems
import ChatText.Proofs.ItemTheorems

/-!
# What segments look like

A run of text that is decoded holds no marker that could be shown, but it is cut and glued together
with spaces before it is shown. A marker has no blanks, so it would stand in one word of a label
(`exists_word_of_markerIn`); the words of a label are pieces of the run (`isChunkOf_of_mem_words`),
and so no label holds one either (`decode_label`). With that, each kind of segment is well formed on
every way that a message is shown (`wellFormed_segments`).
-/

namespace ChatText

/-! ## Texts without markers of known codes -/

/-- A marker of a known code stands somewhere in the text. -/
def Registry.MarkerIn (r : Registry) (t : Text) : Prop :=
  ∃ code source, Marker.Denotes code source ∧ r.isKnown code = true ∧ source <:+: t

variable {r : Registry}

theorem Registry.MarkerIn.of_infix {s t : Text} (h : r.MarkerIn s) (hin : s <:+: t) :
    r.MarkerIn t := by
  obtain ⟨code, source, hsource, hknown, hstands⟩ := h
  exact ⟨code, source, hsource, hknown, hstands.trans hin⟩

/-- No marker of a known code stands in a run of text that a message is read as. -/
theorem Registry.Reads.not_markerIn {tokens : List Token} {t run : Text} (h : r.Reads tokens t)
    (hrun : .text run ∈ tokens) : ¬ r.MarkerIn run := by
  induction h with
  | nil => cases hrun
  | @text run' t tokens _ _ hfree _ ih =>
    rcases List.mem_cons.1 hrun with heq | hrun
    · cases heq
      rintro ⟨code, source, hsource, hknown, before, after, rfl⟩
      -- the marker starts at the end of the run that follows what is before it
      have hne : source ++ after ≠ [] := by
        obtain ⟨d, -, -, rfl⟩ := hsource
        exact List.cons_ne_nil _ _
      have hsuffix : source ++ after <:+ before ++ source ++ after :=
        ⟨before, (List.append_assoc before source after).symm⟩
      apply hfree _ hsuffix hne
      refine ⟨code, source, hsource, hknown, ?_⟩
      rw [List.append_assoc]
      exact List.prefix_append _ _
    · exact ih hrun
  | emoticon _ _ _ ih =>
    rcases List.mem_cons.1 hrun with heq | hrun
    · cases heq
    · exact ih hrun

/-- A text without markers of known codes is read as one run. -/
theorem decode_of_not_markerIn {t : Text} (ht : t ≠ []) (h : ¬ r.MarkerIn t) :
    decode r t = [.text t] := by
  -- decoding gives the only reading there is, so it is enough that this is one
  have hreads : r.Reads [.text t] (t ++ []) := by
    refine .text ht (by simp) (fun v hv _ hstarts => h ?_) .nil
    obtain ⟨code, source, hsource, hknown, hprefix⟩ := hstarts
    rw [List.append_nil] at hprefix
    exact ⟨code, source, hsource, hknown, hprefix.isInfix.trans hv.isInfix⟩
  rw [List.append_nil] at hreads
  exact hreads.decode_eq

/-- A marker stands in one word. -/
theorem exists_word_of_markerIn {t : Text} (h : r.MarkerIn t) : ∃ w ∈ words t, r.MarkerIn w := by
  obtain ⟨code, source, hsource, hknown, hin⟩ := h
  have hwhole : source <:+: unwords (words t) := by
    rwa [unwords_words]
  obtain ⟨d, hd, hvalue, rfl⟩ := hsource
  -- delimiters and digits are no spaces, so the marker does not reach over one
  have hspace : ' ' ∉ Marker.enclose d := by
    intro hmem
    exact absurd (Marker.isSymbol_of_mem_enclose hd hmem) (by decide)
  obtain ⟨w, hw, hword⟩ :=
    exists_infix_of_infix_intercalate hwhole (List.cons_ne_nil _ _) hspace
  exact ⟨w, hw, code, _, ⟨d, hd, hvalue, rfl⟩, hknown, hword⟩

/-! ## Labels and links of a run -/

namespace Layout

variable {maxWord maxLabel : Nat} {isLink : Text → Bool} {run s : Text}

theorem IsChunkOf.isInfix {chunk : Text} (h : IsChunkOf maxWord run chunk) : chunk <:+: run := by
  obtain ⟨word, hword, hin, -⟩ := h
  exact hin.trans (infix_of_mem_splitOnP hword)

/-- A label of a run without markers is read as one run again. -/
theorem decode_label (hrun : ¬ r.MarkerIn run)
    (hs : .label s ∈ labelsAndLinks maxWord maxLabel isLink run) : decode r s = [.text s] := by
  apply decode_of_not_markerIn (label_ne_nil hs)
  intro hmarker
  obtain ⟨w, hw, hmarker⟩ := exists_word_of_markerIn hmarker
  exact hrun (hmarker.of_infix (isChunkOf_of_mem_words hs hw).isInfix)

/-- The only blanks of a label are spaces. -/
theorem eq_space_of_mem_label (hs : .label s ∈ labelsAndLinks maxWord maxLabel isLink run)
    {c : Char} (hc : c ∈ s) (hblank : isBlank c = true) : c = ' ' := by
  have hjoined : c ∈ unwords (words s) := by
    rwa [unwords_words]
  rcases of_mem_intercalate hjoined with hspace | ⟨w, hw, hmem⟩
  · exact hspace
  · have hchunk := isChunkOf_of_mem_words hs hw
    rw [hchunk.not_blank hmem] at hblank
    cases hblank

/-- A link of a text is a word of it. -/
theorem of_link_mem (hempty : isLink [] = false)
    (hs : .link s ∈ labelsAndLinks maxWord maxLabel isLink run) :
    s ∈ splitAtBlanks run ∧ isLink s = true := by
  have hmem : s ∈ (labelsAndLinks maxWord maxLabel isLink run).filterMap Item.link? :=
    List.mem_filterMap.2 ⟨_, hs, rfl⟩
  rw [filterMap_link?_labelsAndLinks maxWord maxLabel hempty, wordsWith] at hmem
  exact List.mem_filter.1 hmem

end Layout

/-! ## Markup blocks -/

namespace Markup

/-- A block holds its closing tag. -/
theorem source_ne_nil_of_find_block {tags : Tags} (hclosing : tags.closing ≠ [])
    {t before source after : Text} (h : find tags t = .block before source after) :
    source ≠ [] := by
  obtain ⟨-, -, inside, closing, rfl, hcase⟩ := of_find_block h
  intro hnil
  unfold EqUpToCase at hcase
  rw [(List.append_eq_nil_iff.1 hnil).2, List.map_nil] at hcase
  exact hclosing (List.map_eq_nil_iff.1 hcase.symm)

theorem block_ne_nil_of_mem_sliceBlocks {tags : Tags} (hclosing : tags.closing ≠ [])
    {t source : Text} (h : .block source ∈ sliceBlocks tags hclosing t) : source ≠ [] := by
  fun_induction sliceBlocks tags hclosing t with
  | case1 t hfind => simp at h
  | case2 t before after hfind => simp at h
  | case3 t before source' after hfind ih =>
    rw [List.mem_cons, List.mem_cons] at h
    rcases h with h | h | h
    · cases h
    · cases h
      exact source_ne_nil_of_find_block hclosing hfind
    · exact ih h

/-- No block of a text is empty. -/
theorem block_ne_nil {tags : Tags} {t source : Text} (h : .block source ∈ slices tags t) :
    source ≠ [] := by
  unfold slices at h
  split at h
  · simp at h
  · exact block_ne_nil_of_mem_sliceBlocks _ h

end Markup

theorem newline_not_mem_spaceNewlines (t : Text) : '\n' ∉ spaceNewlines t := by
  intro hmem
  obtain ⟨c, -, hc⟩ := List.mem_map.1 hmem
  split at hc
  · revert hc
    decide
  · rename_i hnewline
    exact hnewline hc

/-! ## Segments -/

/-- What can be relied on in a segment that is shown: text is not empty, has no blanks other than
spaces and no word without a break that is too long, and nothing in it reads as an emoticon; an
emoticon is known; a link is one, and has no blanks; markup is not empty and stands on one line. -/
def Segment.WellFormed (r : Registry) (o : DisplayOptions) : Segment → Prop
  | text t => t ≠ [] ∧ (∀ c ∈ t, isBlank c = true → c = ' ')
      ∧ (∀ w ∈ words t, w.length ≤ max 1 o.maxWord) ∧ decode r t = [.text t]
  | emoticon code => r.isKnown code = true
  | link t => Link.isWeb t = true ∧ ∀ c ∈ t, isBlank c = false
  | markup t => t ≠ [] ∧ '\n' ∉ t
  | lineBreak => True

variable (o : DisplayOptions)

/-- The labels and links of a run of text without markers are well formed. -/
theorem wellFormed_ofItem {run : Text} (hrun : ¬ r.MarkerIn run) {item : Layout.Item}
    (hitem : item ∈ Layout.labelsAndLinks o.maxWord o.maxLabel Link.isWeb run) :
    (Segment.ofItem item).WellFormed r o := by
  cases item with
  | label s =>
    refine ⟨Layout.label_ne_nil hitem, fun c hc => Layout.eq_space_of_mem_label hitem hc,
      fun w hw => ?_, Layout.decode_label hrun hitem⟩
    obtain ⟨-, -, -, hle⟩ := Layout.isChunkOf_of_mem_words hitem hw
    exact hle
  | link s =>
    obtain ⟨hword, hlink⟩ := Layout.of_link_mem (by decide) hitem
    exact ⟨hlink, fun c hc => (of_mem_splitOnP hword hc).2⟩

/-- The segments of a token that is decoded are well formed. -/
theorem wellFormed_tokenSegments {line : Text} {token : Token} (htoken : token ∈ decode r line)
    {segment : Segment} (h : segment ∈ tokenSegments o token) : segment.WellFormed r o := by
  cases token with
  | text run =>
    obtain ⟨item, hitem, rfl⟩ := List.mem_map.1 h
    exact wellFormed_ofItem o ((reads_decode r line).not_markerIn htoken) hitem
  | emoticon code =>
    obtain rfl : segment = .emoticon code := List.mem_singleton.1 h
    have hcode : code ∈ emoticonCodes r line := List.mem_filterMap.2 ⟨_, htoken, rfl⟩
    exact isKnown_of_mem_emoticonCodes r hcode

/-- As plain text a message is shown in well-formed segments. -/
theorem wellFormed_plainSegments {t : Text} {segment : Segment}
    (h : segment ∈ plainSegments r o t) : segment.WellFormed r o := by
  rcases of_mem_intercalate h with rfl | ⟨part, hpart, hmem⟩
  · trivial
  · obtain ⟨line, -, rfl⟩ := List.mem_map.1 hpart
    obtain ⟨token, htoken, hsegment⟩ := List.mem_flatMap.1 hmem
    exact wellFormed_tokenSegments o htoken hsegment

/-- **Segments are well formed.** Whether markup is read, given up or not read at all, each segment
that is shown of a message is well formed. -/
theorem wellFormed_segments (r : Registry) (t : Text) {segment : Segment}
    (h : segment ∈ (Display.ofMessage r o t).segments) : segment.WellFormed r o := by
  rcases segments_ofMessage_cases r o t with hplain | ⟨-, -, hslices⟩
  · rw [hplain] at h
    exact wellFormed_plainSegments o h
  · rw [hslices] at h
    obtain ⟨slice, hslice, hmem⟩ := List.mem_flatMap.1 h
    cases slice with
    | plain s => exact wellFormed_plainSegments o hmem
    | block s =>
      obtain rfl : segment = .markup (spaceNewlines s) := List.mem_singleton.1 hmem
      have hne : spaceNewlines s ≠ [] := by
        unfold spaceNewlines
        rw [ne_eq, List.map_eq_nil_iff]
        exact Markup.block_ne_nil hslice
      exact ⟨hne, newline_not_mem_spaceNewlines s⟩
    | opening s => cases hmem

/-- A text between a known marker, a block and a link: it is cut into chunks of two symbols and
holds a digit and delimiters that are left over from other markers. -/
theorem wellFormed_segments_stray_delimiters :
    let r := Registry.ofSteps [.icon 7 16 16 0]
    let o : DisplayOptions := { maxWord := 2, maxLabel := 6 }
    let t := "a$8$$07$9\t$7 $<object\n></object>www.b".toList
    (Display.ofMessage r o t).segments
        = [.text "a$ 8$".toList, .emoticon 7, .text "9 $7 ".toList, .text "$".toList,
          .markup "<object ></object>".toList, .link "www.b".toList]
      ∧ .text "9 $7 ".toList ∈ (Display.ofMessage r o t).segments
      ∧ Segment.WellFormed r o (.text "9 $7 ".toList) := by
  intro r o t
  have hshown : (Display.ofMessage r o t).segments
      = [.text "a$ 8$".toList, .emoticon 7, .text "9 $7 ".toList, .text "$".toList,
        .markup "<object ></object>".toList, .link "www.b".toList] := by
    decide +kernel
  have hmem : .text "9 $7 ".toList ∈ (Display.ofMessage r o t).segments := by
    rw [hshown]
    decide
  exact ⟨hshown, hmem, wellFormed_segments o r t hmem⟩

end ChatText
