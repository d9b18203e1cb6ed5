import ChatText.Proofs.LinkTheorems

/-!
# The labels and links of a line

Where two pieces of a line meet, `gather` writes one space: inside a label that goes on, at the end
of a label that is closed because the next chunk would fill it, or at the end of one that a link
follows. Each fact about its result comes from one induction along its recursion:

* taken together, the labels and links are all pieces joined by single spaces
  (`flatMap_text_gather`);
* what holds of a label in hand as long as chunks are added to it holds of every label, but for the
  space at its end (`exists_of_label_mem_gather`). So no label is empty, none is too long
  (`length_le_of_label_mem`), and its words are chunks (`isChunkOf_of_mem_words`);
* a label that is closed because of a chunk is followed by one that leads with this chunk
  (`leading_of_head?_gather`), so it was not closed too early (`isChain_gather`).
-/

namespace ChatText
namespace Layout

/-! ## Words and their pieces -/

/-- The pieces make up the word. All but the last one have `size` symbols; the last one has no more
than that, and it is empty only if the word is. -/
def IsCut (size : Nat) (word : Text) (pieces : List Text) : Prop :=
  ∃ full last, pieces = full ++ [last] ∧ pieces.flatten = word
    ∧ (∀ piece ∈ full, piece.length = size) ∧ last.length ≤ size ∧ (last = [] → word = [])

/-- The pieces that a word is shown in: a link is one piece, another word is cut. -/
def PiecesOf (size : Nat) (isLink : Text → Bool) (word : Text) (pieces : List Text) : Prop :=
  if isLink word then pieces = [word] else IsCut size word pieces

theorem isCut_cut {size : Nat} (hsize : 0 < size) (word : Text) :
    IsCut size word (cut size word) := by
  by_cases hword : word = []
  · subst hword
    exact ⟨[], [], cutFrom_of_le size (Nat.zero_le size), flatten_cut size [], by simp,
      Nat.zero_le size, fun _ => rfl⟩
  · obtain ⟨full, last, hcut, hfull, hlast, hle⟩ := exists_cut hsize hword
    exact ⟨full, last, hcut, flatten_cut size word, hfull, hle, fun hnil => absurd hnil hlast⟩

theorem IsCut.length_le {size : Nat} {word piece : Text} {pieces : List Text}
    (h : IsCut size word pieces) (hpiece : piece ∈ pieces) : piece.length ≤ size := by
  obtain ⟨full, last, hpieces, -, hfull, hle, -⟩ := h
  rw [hpieces, List.mem_append, List.mem_singleton] at hpiece
  cases hpiece with
  | inl hmem => exact Nat.le_of_eq (hfull piece hmem)
  | inr hlast => exact hlast ▸ hle

theorem IsCut.isInfix {size : Nat} {word piece : Text} {pieces : List Text}
    (h : IsCut size word pieces) (hpiece : piece ∈ pieces) : piece <:+: word := by
  obtain ⟨-, -, -, hflatten, -⟩ := h
  rw [← hflatten]
  exact List.infix_of_mem_flatten hpiece

variable {maxWord maxLabel : Nat} {isLink : Text → Bool}

theorem piecesOf_unbrokenOfWord (maxWord : Nat) (isLink : Text → Bool) (word : Text) :
    PiecesOf (max 1 maxWord) isLink word
      ((unbrokenOfWord maxWord isLink word).map Unbroken.text) := by
  have hchunks : ((cut (max 1 maxWord) word).map Unbroken.chunk).map Unbroken.text
      = cut (max 1 maxWord) word := by
    rw [List.map_map]
    exact List.map_id _
  unfold PiecesOf unbrokenOfWord
  by_cases hlink : isLink word = true
  · rw [if_pos hlink]
    by_cases hword : word = []
    · -- the empty word is cut, and that leaves it as it is
      rw [if_neg fun h => h.1 hword, hchunks, hword]
      exact cutFrom_of_le _ (Nat.zero_le _)
    · rw [if_pos ⟨hword, hlink⟩]
      rfl
  · rw [if_neg hlink, if_neg fun h => hlink h.2, hchunks]
    exact isCut_cut (by omega) word

/-- The text is a piece of a word of `t` and not longer than words are shown in one piece. -/
def IsChunkOf (maxWord : Nat) (t chunk : Text) : Prop :=
  ∃ word ∈ splitAtBlanks t, chunk <:+: word ∧ chunk.length ≤ max 1 maxWord

theorem IsChunkOf.not_blank {t chunk : Text} (h : IsChunkOf maxWord t chunk) {c : Char}
    (hc : c ∈ chunk) : isBlank c = false := by
  obtain ⟨word, hword, hin, -⟩ := h
  exact (of_mem_splitOnP hword (hin.subset hc)).2

theorem IsChunkOf.space_not_mem {t chunk : Text} (h : IsChunkOf maxWord t chunk) :
    ' ' ∉ chunk :=
  not_mem_of_isBlank (fun _ hc => h.not_blank hc) (by decide)

theorem isChunkOf_nil (maxWord : Nat) (t : Text) : IsChunkOf maxWord t [] := by
  obtain ⟨word, words, hsplit⟩ := List.exists_cons_of_ne_nil (List.splitOnP_ne_nil isBlank t)
  refine ⟨word, ?_, List.nil_infix, Nat.zero_le _⟩
  show word ∈ t.splitOnP isBlank
  rw [hsplit]
  exact List.mem_cons_self

theorem isChunkOf_of_mem {t chunk : Text}
    (h : .chunk chunk ∈ (splitAtBlanks t).flatMap (unbrokenOfWord maxWord isLink)) :
    IsChunkOf maxWord t chunk := by
  obtain ⟨word, hword, hmem⟩ := List.mem_flatMap.1 h
  refine ⟨word, hword, ?_⟩
  unfold unbrokenOfWord at hmem
  split at hmem
  · simp at hmem
  · obtain ⟨piece, hpiece, heq⟩ := List.mem_map.1 hmem
    cases heq
    have hcut : IsCut (max 1 maxWord) word (cut (max 1 maxWord) word) := isCut_cut (by omega) word
    exact ⟨hcut.isInfix hpiece, hcut.length_le hpiece⟩

/-! ## One space between two pieces -/

/-- The symbols of a label or a link. -/
def Item.text : Item → Text
  | label t => t
  | link t => t

/-- With a label in hand, the items are the pieces behind this label, joined by single spaces. -/
theorem flatMap_text_gather (maxLabel : Nat) (label : Option Text) (us : List Unbroken) :
    (gather maxLabel label us).flatMap Item.text
      = unwords (label.toList ++ us.map Unbroken.text) := by
  -- induction along `gather`: what is in hand stands in front of the pieces that are left
  fun_induction gather maxLabel label us with
  | case1 label =>
    cases label with
    | none => rfl
    | some t =>
      show (labelItem t).flatMap Item.text = unwords [t]
      unfold labelItem
      split
      · rename_i ht
        rw [ht]
        rfl
      · simp [Item.text, unwords]
  | case2 link rest ih =>
    -- the empty label behind a link writes the space in front of the next piece
    have hlink := unwords_append_cons link [] (rest.map Unbroken.text)
    rw [List.append_nil] at hlink
    rw [List.flatMap_cons, ih]
    exact hlink.symm
  | case3 link rest t ih =>
    -- one space closes the label, and the one behind the link comes as before
    have hlink := unwords_append_cons link [] (rest.map Unbroken.text)
    rw [List.append_nil] at hlink
    have hjoin := unwords_cons_cons t link (rest.map Unbroken.text)
    rw [hlink] at hjoin
    rw [List.flatMap_cons, List.flatMap_cons, ih, Item.text, List.append_assoc,
      List.singleton_append]
    exact hjoin.symm
  | case4 chunk rest ih => exact ih
  | case5 chunk rest t hfull ih =>
    rw [List.flatMap_cons, ih, Item.text, List.append_assoc, List.singleton_append]
    exact (unwords_cons_cons t chunk (rest.map Unbroken.text)).symm
  | case6 chunk rest t hroom ih =>
    -- the chunk joins the label in hand, behind a space
    rw [ih]
    show unwords ((t ++ ' ' :: chunk) :: rest.map Unbroken.text)
      = unwords (t :: chunk :: rest.map Unbroken.text)
    rw [unwords_append_cons, unwords_cons_cons]
    exact congrArg (t ++ ·) (unwords_append_cons [' '] chunk (rest.map Unbroken.text))

/-! ## What holds of every label -/

/-- All chunks among the pieces are chunks of the wanted kind. -/
def AllChunks (IsChunk : Text → Prop) (us : List Unbroken) : Prop :=
  ∀ u ∈ us, ∀ chunk, u = .chunk chunk → IsChunk chunk

/-- Every label is one that was in hand, with or without a space behind it. What holds of the empty
label and of a chunk alone, and goes on to hold when a chunk joins the label, holds of the label in
hand at any time. -/
theorem exists_of_label_mem_gather {IsChunk P : Text → Prop} (hempty : P [])
    (hstart : ∀ chunk, IsChunk chunk → P chunk)
    (hjoin : ∀ t chunk, IsChunk chunk → P t →
      (t ≠ [] → t.length + 1 + chunk.length < maxLabel) → P (t ++ ' ' :: chunk))
    {us : List Unbroken} (hus : AllChunks IsChunk us) {label : Option Text}
    (hlabel : ∀ t ∈ label, P t) {s : Text} (hs : .label s ∈ gather maxLabel label us) :
    ∃ t, P t ∧ (s = t ++ [' '] ∨ s = t ∧ t ≠ []) := by
  have hnew : ∀ t : Text, P t → ∀ t' ∈ some t, P t' := by
    intro t ht t' ht'
    rw [Option.mem_some_iff] at ht'
    exact ht' ▸ ht
  fun_induction gather maxLabel label us with
  | case1 label =>
    cases label with
    | none => cases hs
    | some t =>
      have hmem : .label s ∈ labelItem t := hs
      unfold labelItem at hmem
      split at hmem
      · cases hmem
      · rename_i ht
        obtain rfl : s = t := by simpa using hmem
        exact ⟨s, hlabel s rfl, Or.inr ⟨rfl, ht⟩⟩
  | case2 link rest ih =>
    rw [AllChunks, List.forall_mem_cons] at hus
    apply ih hus.2 (hnew [] hempty)
    simpa using hs
  | case3 link rest t ih =>
    rw [AllChunks, List.forall_mem_cons] at hus
    rw [List.mem_cons, List.mem_cons] at hs
    rcases hs with hs | hs | hs
    · cases hs
      exact ⟨t, hlabel t rfl, Or.inl rfl⟩
    · cases hs
    · exact ih hus.2 (hnew [] hempty) hs
  | case4 chunk rest ih =>
    rw [AllChunks, List.forall_mem_cons] at hus
    exact ih hus.2 (hnew chunk (hstart chunk (hus.1 chunk rfl))) hs
  | case5 chunk rest t hfull ih =>
    rw [AllChunks, List.forall_mem_cons] at hus
    rw [List.mem_cons] at hs
    cases hs with
    | inl hs =>
      cases hs
      exact ⟨t, hlabel t rfl, Or.inl rfl⟩
    | inr hs => exact ih hus.2 (hnew chunk (hstart chunk (hus.1 chunk rfl))) hs
  | case6 chunk rest t hroom ih =>
    rw [AllChunks, List.forall_mem_cons] at hus
    apply ih hus.2 (hnew _ ?_) hs
    apply hjoin t chunk (hus.1 chunk rfl) (hlabel t rfl)
    intro ht
    exact Nat.lt_of_not_le fun hle => hroom ⟨ht, hle⟩

theorem allChunks_of_words (maxWord : Nat) (isLink : Text → Bool) (t : Text) :
    AllChunks (IsChunkOf maxWord t)
      ((splitAtBlanks t).flatMap (unbrokenOfWord maxWord isLink)) := by
  intro u hu chunk hchunk
  subst hchunk
  exact isChunkOf_of_mem hu

/-- The labels of a text are made of chunks of its words. -/
theorem exists_of_label_mem {P : Text → Prop} {t : Text} (hempty : P [])
    (hstart : ∀ chunk, IsChunkOf maxWord t chunk → P chunk)
    (hjoin : ∀ label chunk, IsChunkOf maxWord t chunk → P label →
      (label ≠ [] → label.length + 1 + chunk.length < maxLabel) → P (label ++ ' ' :: chunk))
    {s : Text} (hs : .label s ∈ labelsAndLinks maxWord maxLabel isLink t) :
    ∃ label, P label ∧ (s = label ++ [' '] ∨ s = label ∧ label ≠ []) := by
  have hnone : ∀ label ∈ (none : Option Text), P label := by
    intro label hlabel
    cases hlabel
  exact exists_of_label_mem_gather hempty hstart hjoin
    (allChunks_of_words maxWord isLink t) hnone hs

/-- No label is empty. -/
theorem label_ne_nil {t s : Text} (hs : .label s ∈ labelsAndLinks maxWord maxLabel isLink t) :
    s ≠ [] := by
  obtain ⟨label, -, hclosed⟩ := exists_of_label_mem (P := fun _ => True)
    trivial (fun _ _ => trivial) (fun _ _ _ _ _ => trivial) hs
  rcases hclosed with rfl | ⟨rfl, hne⟩
  · exact List.append_ne_nil_of_right_ne_nil label (List.cons_ne_nil ' ' [])
  · exact hne

/-- A label does not reach its limit before the space at its end is written, unless it is a single
chunk with at most one space in front of it. -/
theorem length_le_of_label_mem {t s : Text}
    (hs : .label s ∈ labelsAndLinks maxWord maxLabel isLink t) :
    s.length ≤ max maxLabel (max 1 maxWord + 2) := by
  have hjoin : ∀ label chunk, IsChunkOf maxWord t chunk →
      label.length + 1 ≤ max maxLabel (max 1 maxWord + 2) →
      (label ≠ [] → label.length + 1 + chunk.length < maxLabel) →
      (label ++ ' ' :: chunk).length + 1 ≤ max maxLabel (max 1 maxWord + 2) := by
    intro label chunk hchunk _ hroom
    obtain ⟨-, -, -, hle⟩ := hchunk
    rw [List.length_append, List.length_cons]
    -- an empty label is never full, and only its chunk is short
    by_cases hlabel : label = []
    · rw [hlabel, List.length_nil]
      omega
    · have hlt := hroom hlabel
      omega
  have hstart : ∀ chunk, IsChunkOf maxWord t chunk →
      chunk.length + 1 ≤ max maxLabel (max 1 maxWord + 2) := by
    intro chunk hchunk
    obtain ⟨-, -, -, hle⟩ := hchunk
    omega
  obtain ⟨label, hle, hclosed⟩ := exists_of_label_mem
    (P := fun label => label.length + 1 ≤ max maxLabel (max 1 maxWord + 2)) (by simp) hstart
    hjoin hs
  rcases hclosed with rfl | ⟨rfl, -⟩
  · simpa using hle
  · omega

/-- The words of a label are chunks of the words of the text. -/
theorem isChunkOf_of_mem_words {t s w : Text}
    (hs : .label s ∈ labelsAndLinks maxWord maxLabel isLink t) (hw : w ∈ words s) :
    IsChunkOf maxWord t w := by
  have hstart : ∀ chunk, IsChunkOf maxWord t chunk →
      ∀ w ∈ words chunk, IsChunkOf maxWord t w := by
    intro chunk hchunk w hw
    rw [words_of_not_mem (hchunk.space_not_mem), List.mem_singleton] at hw
    exact hw ▸ hchunk
  have hempty := hstart [] (isChunkOf_nil maxWord t)
  obtain ⟨label, hlabel, hclosed⟩ := exists_of_label_mem
    (P := fun label => ∀ w ∈ words label, IsChunkOf maxWord t w) hempty hstart (by
      intro label chunk hchunk hlabel _ w hw
      rw [words_append_space, List.mem_append] at hw
      cases hw with
      | inl hw => exact hlabel w hw
      | inr hw => exact hstart chunk hchunk w hw) hs
  rcases hclosed with rfl | ⟨rfl, -⟩
  · -- the space at the end only adds the empty word
    rw [words_append_space, List.mem_append] at hw
    cases hw with
    | inl hw => exact hlabel w hw
    | inr hw => exact hempty w hw
  · exact hlabel w hw

/-! ## Where a label is closed -/

/-- What a label leads with: its symbols up to its first space. -/
def leading (label : Text) : Text := label.takeWhile (· ≠ ' ')

/-- If the two are labels, what the second one leads with would have filled the first one. -/
def Item.FilledBy (maxLabel : Nat) : Item → Item → Prop
  | label s, label s' => maxLabel ≤ s.length + (leading s').length
  | label _, link _ | link _, label _ | link _, link _ => True

/-- The first item that comes of a label in hand is this label, or a space follows it there. -/
theorem eq_or_prefix_of_head?_gather {t s : Text} {us : List Unbroken}
    (h : (gather maxLabel (some t) us).head? = some (.label s)) : s = t ∨ t ++ [' '] <+: s := by
  induction us generalizing t with
  | nil =>
    have hitem : (labelItem t).head? = some (.label s) := h
    unfold labelItem at hitem
    split at hitem
    · cases hitem
    · cases hitem
      exact Or.inl rfl
  | cons u us ih =>
    cases u with
    | link link =>
      cases h
      exact Or.inr (List.prefix_refl _)
    | chunk chunk =>
      rw [gather] at h
      split at h
      · cases h
        exact Or.inr (List.prefix_refl _)
      · have hjoined : t ++ [' '] <+: t ++ ' ' :: chunk := ⟨chunk, by simp⟩
        rcases ih h with rfl | hlonger
        · exact Or.inr hjoined
        · -- what was in hand stands in front of all that joins it later
          exact Or.inr (hjoined.trans ((List.prefix_append _ [' ']).trans hlonger))

/-- The first label that comes of a chunk in hand leads with the chunk. -/
theorem leading_of_head?_gather {chunk s : Text} (hchunk : ' ' ∉ chunk) {us : List Unbroken}
    (h : (gather maxLabel (some chunk) us).head? = some (.label s)) : leading s = chunk := by
  have hsolid := forall_ne_of_not_mem hchunk
  unfold leading
  rcases eq_or_prefix_of_head?_gather h with rfl | ⟨rest, rfl⟩
  · exact List.takeWhile_eq_self_iff.2 hsolid
  · rw [List.append_assoc]
    exact takeWhile_append_of_head? hsolid (by simp)

/-- No label is closed for a chunk that would have left room on it. -/
theorem isChain_gather {us : List Unbroken} (hus : AllChunks (' ' ∉ ·) us) (label : Option Text) :
    (gather maxLabel label us).IsChain (Item.FilledBy maxLabel) := by
  have hlink : ∀ (link : Text) (item : Item), Item.FilledBy maxLabel (.link link) item := by
    intro link item
    cases item <;> trivial
  fun_induction gather maxLabel label us with
  | case1 label =>
    unfold labelItem
    split
    · exact .nil
    · exact .singleton _
  | case2 link rest ih =>
    rw [AllChunks, List.forall_mem_cons] at hus
    rw [List.isChain_cons]
    exact ⟨fun item _ => hlink link item, ih hus.2⟩
  | case3 link rest t ih =>
    rw [AllChunks, List.forall_mem_cons] at hus
    rw [List.isChain_cons_cons, List.isChain_cons]
    exact ⟨trivial, fun item _ => hlink link item, ih hus.2⟩
  | case4 chunk rest ih =>
    rw [AllChunks, List.forall_mem_cons] at hus
    exact ih hus.2
  | case5 chunk rest t hfull ih =>
    rw [AllChunks, List.forall_mem_cons] at hus
    rw [List.isChain_cons]
    refine ⟨fun item hitem => ?_, ih hus.2⟩
    cases item with
    | link link => trivial
    | label s =>
      -- the next label leads with the chunk that the closed one had no room for
      show maxLabel ≤ (t ++ [' ']).length + (leading s).length
      rw [leading_of_head?_gather (hus.1 chunk rfl) hitem, List.length_append]
      exact hfull.2
  | case6 chunk rest t hroom ih =>
    rw [AllChunks, List.forall_mem_cons] at hus
    exact ih hus.2

/-! ## The items of a line -/

variable (maxWord maxLabel isLink)

/-- The empty word is no link, whatever the predicate says of it. -/
theorem labelsAndLinks_ne_nil_and (t : Text) :
    labelsAndLinks maxWord maxLabel (fun word => word ≠ [] && isLink word) t
      = labelsAndLinks maxWord maxLabel isLink t := by
  unfold labelsAndLinks
  refine congrArg (gather maxLabel none) (List.flatMap_congr fun word _ => ?_)
  unfold unbrokenOfWord
  by_cases hword : word = [] <;> simp [hword]

/-- **Words are split exactly.** Each word is one piece if it is a link, and cut otherwise. Taken
together, the labels and links of a text are all these pieces, joined by single spaces. The links
are the words that are links, in order, and no label is empty. -/
theorem exists_pieces_labelsAndLinks (t : Text) :
    ∃ pieces : List (List Text),
      List.Forall₂ (PiecesOf (max 1 maxWord) isLink) (splitAtBlanks t) pieces
        ∧ (labelsAndLinks maxWord maxLabel isLink t).flatMap Item.text = unwords pieces.flatten
        ∧ (labelsAndLinks maxWord maxLabel isLink t).filterMap Item.link?
          = (splitAtBlanks t).filter (fun word => word ≠ [] && isLink word)
        ∧ ∀ label, .label label ∈ labelsAndLinks maxWord maxLabel isLink t → label ≠ [] := by
  let pieces := (splitAtBlanks t).map fun word =>
    (unbrokenOfWord maxWord isLink word).map Unbroken.text
  refine ⟨pieces, ?_, ?_, ?_, fun label => label_ne_nil⟩
  · rw [List.forall₂_map_right_iff, List.forall₂_same]
    exact fun word _ => piecesOf_unbrokenOfWord maxWord isLink word
  · unfold labelsAndLinks
    rw [flatMap_text_gather, List.map_flatMap]
    rfl
  · rw [← labelsAndLinks_ne_nil_and]
    exact filterMap_link?_labelsAndLinks maxWord maxLabel rfl t

/-- Chunks of a word, blanks at both ends and next to each other, and a link that is kept whole: a
space for each. -/
example :
    labelsAndLinks 2 4 Link.isWeb "	abc  www.d e ".toList
      = [.label " ab ".toList, .label "c  ".toList, .link "www.d".toList, .label " e ".toList] := by
  decide

/-- **Labels are capped, and closed only when needed.** A label has at most `maxLabel` symbols, or
as many as a chunk of a word between two spaces. If one label follows another one directly, the one
had no room for what the other one leads with. -/
theorem labels_are_capped (t : Text) :
    (∀ label, .label label ∈ labelsAndLinks maxWord maxLabel isLink t →
        label.length ≤ max maxLabel (max 1 maxWord + 2))
      ∧ (labelsAndLinks maxWord maxLabel isLink t).IsChain (Item.FilledBy maxLabel) := by
  have hspaces : AllChunks (' ' ∉ ·)
      ((splitAtBlanks t).flatMap (unbrokenOfWord maxWord isLink)) := by
    intro u hu chunk hchunk
    have hof := allChunks_of_words maxWord isLink t u hu chunk hchunk
    exact hof.space_not_mem
  exact ⟨fun label => length_le_of_label_mem, isChain_gather hspaces none⟩

end Layout
end ChatText
