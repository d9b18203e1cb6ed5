import ChatText.Proofs.DecodeTheorems
import ChatText.Proofs.FallbackTheorems
import ChatText.Proofs.FixpointTheorems
import ChatText.Proofs.LabelTheorems
import ChatText.Proofs.WordTheorems

/-!
# Links from the typed message to its display

On its way to the display a message is split several times: at spaces and newlines to be encoded, at
newlines, markers and blanks to be shown. `wordsWith` picks the wanted words of a text, and what the
splits do to them is said once for each:

* at blanks of any kind nothing happens to a word (`wordsWith_intercalate`, `wordsWith_trim`,
  `splitAtBlanks_spaceBlanks`);
* next to a delimiter only words with a delimiter can be cut (`wordsWith_append_sublist`), and the
  parts that a line is decoded into meet at delimiters only (`wordsWith_sublist_of_reads`);
* whatever the limits of labels are, the links of a run are shown one by one
  (`filterMap_link?_labelsAndLinks`).

So a link without delimiters reaches the display in one piece (`links_survive`).
-/

namespace ChatText

variable {wanted : Text → Bool}

/-! ## Cuts next to delimiters -/

/-- Where two texts meet, the last piece of the one and the first piece of the other become one. -/
theorem exists_splitOnP_append (p : Char → Bool) (s t : Text) :
    ∃ front last first back, s.splitOnP p = front ++ [last] ∧ t.splitOnP p = first :: back
      ∧ (s ++ t).splitOnP p = front ++ (last ++ first) :: back := by
  obtain ⟨first, back, ht⟩ := List.exists_cons_of_ne_nil (List.splitOnP_ne_nil p t)
  induction s with
  | nil => exact ⟨[], [], first, back, List.splitOnP_nil, ht, ht⟩
  | cons c s ih =>
    obtain ⟨front, last, first, back, hs, ht, hst⟩ := ih
    rw [List.cons_append, List.splitOnP_cons_eq_if_modifyHead, List.splitOnP_cons_eq_if_modifyHead,
      hs, hst]
    by_cases hc : p c = true
    · exact ⟨[] :: front, last, first, back, by simp [hc], ht, by simp [hc]⟩
    · cases front with
      | nil => exact ⟨[], c :: last, first, back, by simp [hc], ht, by simp [hc]⟩
      | cons piece front =>
        exact ⟨(c :: piece) :: front, last, first, back, by simp [hc], ht, by simp [hc]⟩

/-- No word with a delimiter is wanted, and neither is the empty one. -/
def WithoutDelimiters (wanted : Text → Bool) : Prop :=
  wanted [] = false ∧ ∀ w, Marker.delimiter ∈ w → wanted w = false

/-- Cutting a text in front of a delimiter or behind one cuts no word that is wanted. -/
theorem wordsWith_append_sublist (hwanted : WithoutDelimiters wanted) {s t : Text}
    (hcut : s.getLast? = some Marker.delimiter ∨ t.head? = some Marker.delimiter) :
    (wordsWith wanted (s ++ t)).Sublist (wordsWith wanted s ++ wordsWith wanted t) := by
  obtain ⟨front, last, first, back, hs, ht, hst⟩ := exists_splitOnP_append isBlank s t
  have hsolid : ¬ isBlank Marker.delimiter = true := by decide
  -- the piece at the cut holds the delimiter
  have hmem : Marker.delimiter ∈ last ++ first := by
    rcases hcut with hcut | hcut
    · obtain ⟨s, rfl⟩ := List.getLast?_eq_some_iff.1 hcut
      obtain ⟨front', last', first', back', -, hdelimiter, hsplit⟩ :=
        exists_splitOnP_append isBlank s [Marker.delimiter]
      rw [List.splitOnP_cons_eq_if_modifyHead, if_neg hsolid, List.splitOnP_nil,
        List.modifyHead_cons, List.cons.injEq] at hdelimiter
      rw [hs, ← hdelimiter.1, ← hdelimiter.2] at hsplit
      have hlast := (List.append_inj' hsplit rfl).2
      rw [List.cons.injEq] at hlast
      simp [hlast.1]
    · obtain ⟨t, rfl⟩ := List.head?_eq_some_iff.1 hcut
      obtain ⟨piece, others, hsplit⟩ := List.exists_cons_of_ne_nil (List.splitOnP_ne_nil isBlank t)
      rw [List.splitOnP_cons_eq_if_modifyHead, if_neg hsolid, hsplit, List.modifyHead_cons,
        List.cons.injEq] at ht
      simp [← ht.1]
  rw [wordsWith, wordsWith, wordsWith, splitAtBlanks, splitAtBlanks, splitAtBlanks, hs, ht, hst,
    List.filter_append, List.filter_append, List.filter_cons_of_neg (by simp [hwanted.2 _ hmem]),
    List.append_assoc]
  refine List.Sublist.append_left ?_ _
  exact ((List.sublist_cons_self first back).filter _).trans (List.sublist_append_right _ _)

/-- Of the words that are wanted in a line, its runs of text hold all. -/
theorem wordsWith_sublist_of_reads (hwanted : WithoutDelimiters wanted) {r : Registry}
    {tokens : List Token} {t : Text} (h : r.Reads tokens t) :
    (wordsWith wanted t).Sublist (tokens.flatMap fun
      | .text run => wordsWith wanted run
      | .emoticon _ => []) := by
  induction h with
  | nil =>
    rw [wordsWith_nil hwanted.1]
    exact List.nil_sublist _
  | @text run t tokens _ hapart _ h ih =>
    rw [List.flatMap_cons]
    -- behind the run the text ends, or an emoticon starts with a delimiter
    cases h with
    | nil =>
      rw [List.append_nil]
      exact List.sublist_append_left _ _
    | text _ _ _ _ => exact absurd rfl (hapart _)
    | emoticon hsource _ _ =>
      obtain ⟨d, -, -, rfl⟩ := hsource
      exact (wordsWith_append_sublist hwanted (.inr rfl)).trans (ih.append_left _)
  | @emoticon code source t tokens hsource _ _ ih =>
    obtain ⟨d, hd, -, rfl⟩ := hsource
    have hsolid : ∀ c ∈ Marker.enclose d, isBlank c = false := fun c hc =>
      (Marker.isSymbol_of_mem_enclose hd hc).not_blank
    have hnone : wordsWith wanted (Marker.enclose d) = [] := by
      rw [wordsWith_of_not_blank hsolid, if_neg]
      rw [hwanted.2 (Marker.enclose d) List.mem_cons_self]
      exact Bool.false_ne_true
    have hlast : (Marker.enclose d).getLast? = some Marker.delimiter := by
      rw [Marker.enclose, ← List.cons_append, List.getLast?_append_cons, List.getLast?_singleton]
    have hcut := wordsWith_append_sublist hwanted (s := Marker.enclose d) (t := t) (.inl hlast)
    rw [hnone, List.nil_append] at hcut
    rw [List.flatMap_cons, List.nil_append]
    exact hcut.trans ih

/-! ## The links of a display -/

namespace Layout

/-- The link, if the item is one. -/
def Item.link? : Item → Option Text
  | label _ => none
  | link t => some t

/-- The link, unless a chunk of a word. -/
def Unbroken.link? : Unbroken → Option Text
  | chunk _ => none
  | link t => some t

/-- Labels start and end as they may, the links stay what they are. -/
theorem filterMap_link?_gather (maxLabel : Nat) (label : Option Text) (us : List Unbroken) :
    (gather maxLabel label us).filterMap Item.link? = us.filterMap Unbroken.link? := by
  fun_induction gather maxLabel label us with
  | case1 label =>
    rw [labelItem]
    split <;> rfl
  | case2 link rest ih | case3 link rest t ih =>
    simp only [List.filterMap_cons, Item.link?, Unbroken.link?, ih]
  | case4 chunk rest ih | case5 chunk rest t _ ih | case6 chunk rest t _ ih =>
    simp only [List.filterMap_cons, Item.link?, Unbroken.link?, ih]

/-- A word is one link or none, however short the chunks are that words are cut into. -/
theorem filterMap_link?_unbrokenOfWord (maxWord : Nat) {isLink : Text → Bool}
    (hempty : isLink [] = false) (word : Text) :
    (unbrokenOfWord maxWord isLink word).filterMap Unbroken.link?
      = if isLink word then [word] else [] := by
  have hchunks : ∀ pieces : List Text, (pieces.map Unbroken.chunk).filterMap Unbroken.link? = [] :=
    fun pieces => by simp [Unbroken.link?]
  rw [unbrokenOfWord]
  by_cases hlink : isLink word = true
  · have hne : word ≠ [] := by
      rintro rfl
      rw [hempty] at hlink
      cases hlink
    rw [if_pos ⟨hne, hlink⟩, if_pos hlink]
    rfl
  · rw [if_neg fun h => hlink h.2, if_neg hlink, hchunks]

/-- The links that are shown of a text are its words that are links. -/
theorem filterMap_link?_labelsAndLinks (maxWord maxLabel : Nat) {isLink : Text → Bool}
    (hempty : isLink [] = false) (t : Text) :
    (labelsAndLinks maxWord maxLabel isLink t).filterMap Item.link? = wordsWith isLink t := by
  rw [labelsAndLinks, filterMap_link?_gather, List.filterMap_flatMap, wordsWith]
  induction splitAtBlanks t with
  | nil => rfl
  | cons word words ih =>
    rw [List.flatMap_cons, ih, filterMap_link?_unbrokenOfWord maxWord hempty, List.filter_cons]
    split <;> rfl

end Layout

/-- The link, if the segment is one. -/
def Segment.link? : Segment → Option Text
  | link t => some t
  | text _ | emoticon _ | markup _ | lineBreak => none

variable (r : Registry) (o : DisplayOptions)

/-- A link is a link on the line and among the segments. -/
theorem filterMap_link?_map_ofItem (items : List Layout.Item) :
    (items.map Segment.ofItem).filterMap Segment.link? = items.filterMap Layout.Item.link? := by
  rw [List.filterMap_map]
  refine congrArg (List.filterMap · items) (funext fun item => ?_)
  cases item <;> rfl

/-- The links of a token are the links of its run. -/
theorem filterMap_link?_tokenSegments (token : Token) :
    (tokenSegments o token).filterMap Segment.link? = (match token with
      | .text run => wordsWith Link.isWeb run
      | .emoticon _ => []) := by
  cases token with
  | text run =>
    rw [tokenSegments, filterMap_link?_map_ofItem]
    exact Layout.filterMap_link?_labelsAndLinks _ _ (by decide) run
  | emoticon code => rfl

/-- Is the word a link that holds no delimiter? -/
def Link.isPlain (word : Text) : Bool := isWeb word && !word.contains Marker.delimiter

theorem Link.isWeb_of_isPlain {word : Text} (h : isPlain word = true) : isWeb word = true := by
  rw [isPlain, Bool.and_eq_true] at h
  exact h.1

theorem withoutDelimiters_isPlain : WithoutDelimiters Link.isPlain := by
  refine ⟨by decide, fun w hw => ?_⟩
  rw [Link.isPlain, List.contains_iff_mem.2 hw, Bool.not_true, Bool.and_false]

/-- The links without delimiters in a line are shown. -/
theorem wordsWith_isPlain_sublist_lineSegments (line : Text) :
    (wordsWith Link.isPlain line).Sublist
      ((lineSegments r o line).filterMap Segment.link?) := by
  refine (wordsWith_sublist_of_reads withoutDelimiters_isPlain (reads_decode r line)).trans ?_
  rw [lineSegments, List.filterMap_flatMap]
  refine List.Sublist.flatMap_right _ fun token _ => ?_
  rw [filterMap_link?_tokenSegments]
  cases token with
  | text run =>
    exact List.monotone_filter_right _ fun w hw => Link.isWeb_of_isPlain hw
  | emoticon code => exact List.Sublist.refl _

/-- The links of a text without markup are those of its lines. -/
theorem filterMap_link?_plainSegments (t : Text) :
    (plainSegments r o t).filterMap Segment.link?
      = (lines t).flatMap fun line => (lineSegments r o line).filterMap Segment.link? := by
  have hbreak : [Segment.lineBreak].flatMap (fun s => s.link?.toList) = [] := rfl
  rw [plainSegments, List.filterMap_eq_flatMap_toList, flatMap_intercalate, hbreak,
    nil_intercalate, List.map_map, ← List.flatMap_def]
  simp only [Function.comp_def, List.filterMap_eq_flatMap_toList]

theorem wordsWith_isPlain_sublist_plainSegments (t : Text) :
    (wordsWith Link.isPlain t).Sublist ((plainSegments r o t).filterMap Segment.link?) := by
  have hlines : wordsWith Link.isPlain (unlines (lines t))
      = (lines t).flatMap (wordsWith Link.isPlain) :=
    wordsWith_intercalate withoutDelimiters_isPlain.1 (by decide) _
  rw [unlines_lines] at hlines
  rw [hlines, filterMap_link?_plainSegments]
  exact List.Sublist.flatMap_right _ fun line _ => wordsWith_isPlain_sublist_lineSegments r o line

/-! ## Links that are encoded -/

/-- A link without delimiters is kept by the encoding, and no other word is asked for. -/
theorem wordsWith_isPlain_sublist_encodeWord {word : Text} (hword : ∀ c ∈ word, isBlank c = false) :
    (wordsWith Link.isPlain word).Sublist
      (wordsWith Link.isPlain (encodeWord r.substitutions Link.isWeb word)) := by
  rw [wordsWith_of_not_blank hword]
  split
  · rename_i hplain
    rw [encodeWord, if_pos (Or.inr (Link.isWeb_of_isPlain hplain)), wordsWith_of_not_blank hword,
      if_pos hplain]
  · exact List.nil_sublist _

theorem wordsWith_isPlain_sublist_encodeLines (t : Text) :
    (wordsWith Link.isPlain (spaceBlanks t)).Sublist
      (wordsWith Link.isPlain (encodeLines r Link.isWeb (spaceBlanks t))) := by
  have hempty : Link.isPlain [] = false := withoutDelimiters_isPlain.1
  have hlines : wordsWith Link.isPlain (unlines (lines (spaceBlanks t)))
      = (lines (spaceBlanks t)).flatMap (wordsWith Link.isPlain) :=
    wordsWith_intercalate hempty (by decide) _
  rw [unlines_lines] at hlines
  rw [hlines, encodeLines, unlines, wordsWith_intercalate hempty (by decide), List.flatMap_map]
  refine List.Sublist.flatMap_right _ fun line hline => ?_
  have hwords : wordsWith Link.isPlain (unwords (words line))
      = (words line).flatMap (wordsWith Link.isPlain) :=
    wordsWith_intercalate hempty (by decide) _
  rw [unwords_words] at hwords
  rw [hwords, unwords, wordsWith_intercalate hempty (by decide), List.flatMap_map]
  exact List.Sublist.flatMap_right _ fun word hword =>
    wordsWith_isPlain_sublist_encodeWord r fun c hc => isBlank_of_mem_word hline hword hc

theorem wordsWith_isPlain_sublist_encode (t : Text) :
    (wordsWith Link.isPlain t).Sublist (wordsWith Link.isPlain (encode r Link.isWeb t)) := by
  have hspaces : wordsWith Link.isPlain (spaceBlanks t) = wordsWith Link.isPlain t := by
    rw [wordsWith, splitAtBlanks_spaceBlanks, wordsWith]
  rw [encode_eq_trim, wordsWith_trim withoutDelimiters_isPlain.1, ← hspaces]
  exact wordsWith_isPlain_sublist_encodeLines r t

/-- **Links survive.** Where markup is not read, the links that were typed without delimiters are
among the links that are shown of the encoded message: each in one piece, in their order, and as
often as they were typed. -/
theorem links_survive (hread : o.readMarkup = false) (t : Text) :
    ((splitAtBlanks t).filter fun word =>
        Link.isWeb word && !word.contains Marker.delimiter).Sublist
      ((Display.ofMessage r o (encode r Link.isWeb t)).segments.filterMap Segment.link?) := by
  rw [ofMessage_of_not_read r o hread]
  exact (wordsWith_isPlain_sublist_encode r t).trans (wordsWith_isPlain_sublist_plainSegments r o _)

/-- Glyphs stand in the links and next to them, and the limits are shorter than the links. Two more
links are shown, one behind the marker of a glyph and one in front of a marker that was typed. -/
theorem links_survive_brackets :
    let o : DisplayOptions := { maxWord := 2, maxLabel := 1, readMarkup := false }
    let t := "\twww.1) )www.q www.$11$\u2003ftp://)x\n1)\u0085www.1) ".toList
    let shown := (Display.ofMessage .brackets o
      (encode .brackets Link.isWeb t)).segments.filterMap Segment.link?
    (splitAtBlanks t).filter (fun word => Link.isWeb word && !word.contains Marker.delimiter)
        = ["www.1)".toList, "ftp://)x".toList, "www.1)".toList]
      ∧ shown = ["www.1)".toList, "www.q".toList, "www.".toList, "ftp://)x".toList,
          "www.1)".toList]
      ∧ ((splitAtBlanks t).filter
          fun word => Link.isWeb word && !word.contains Marker.delimiter).Sublist shown := by
  intro o t shown
  have hencode : encode .brackets Link.isWeb t
      = "www.1) $11$www.q www.$11$ ftp://)x\n$2$ www.1)".toList := by
    rw [encode, substitutions_brackets]
    decide
  refine ⟨by decide, ?_, links_survive .brackets o rfl t⟩
  rw [show shown = _ from congrArg (fun e => (Display.ofMessage .brackets o
    e).segments.filterMap Segment.link?) hencode]
  decide

end ChatText
