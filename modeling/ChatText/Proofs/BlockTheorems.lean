import ChatText.Link
import ChatText.Proofs.EncodedTagTheorems
import ChatText.Proofs.MessagePieces

/-!
# Blocks of encoded messages

Encoding knows nothing of markup, and a standard glyph may touch a tag of embedded objects. Only the
last symbol of a closing tag can belong to a glyph, `>:-(` or `>:-]`: `MeetsTags` says so of one
glyph and `meetsTags_standard` of all. So of the tags that were typed a stored message misses some
closing ones at most (`readsTags_message`), and only in front of the rest of such a glyph
(`exists_word_of_closing_missed`).

A block whose own closing tag is missed is ended by the next one that is stored. It is kept if that
one stands in front of the next block, and is swallowed or left open otherwise
(`blocksSurvive_iff_keepsBlocks`). What follows for a message is `encode_keeps_blocks`.
-/

namespace ChatText

open Markup

/-! ## Standard glyphs and tags -/

/-- What follows the first symbol of the glyphs that start with the last symbol of a closing tag. -/
def glyphRests : List Text := [":-(".toList, ":-]".toList]

/-- How a glyph may overlap the tags of embedded objects: it takes no symbol of an opening tag, and
of a closing one the last symbol at most. -/
@[mk_iff]
structure MeetsTags (g : Text) : Prop where
  ne_nil : g ≠ []
  /-- No tag starts inside the glyph. -/
  tail : '<' ∉ g.tail
  opening : ∀ i < Tags.object.opening.length,
    startsWithTag ((Tags.object.opening.drop i).take g.length) g = false
  closing : ∀ i < Tags.object.closing.length,
    startsWithTag ((Tags.object.closing.drop i).take g.length) g = true →
      i + 1 = Tags.object.closing.length ∧ ∃ rest ∈ glyphRests, g = '>' :: rest

instance (g : Text) : Decidable (MeetsTags g) := decidable_of_iff _ (meetsTags_iff g).symm

theorem meetsTags_standard : ∀ s ∈ Registry.standard.substitutions, MeetsTags s.1 := by
  rw [Registry.substitutions_standard]
  decide +kernel

theorem foreign_standard : ∀ g ∈ Registry.standard.glyphs, Marker.Foreign g := by
  decide +kernel

/-! ## Tags that meet glyphs -/

variable {m : List (Piece UInt32)} {t : Text} {i : Nat}

/-- All glyphs that have become items may overlap tags so. -/
def GlyphsMeetTags (m : List (Piece UInt32)) : Prop :=
  ∀ code g, .item code g ∈ m → MeetsTags g

theorem GlyphsMeetTags.sourced (hm : GlyphsMeetTags m) : Sourced m := by
  intro p hp
  cases p with
  | symbol c => exact List.cons_ne_nil c []
  | item code g => exact (hm code g hp).ne_nil

/-- The part of the text that a tag is compared with first. -/
theorem startsWithTag_take {tag g rest : Text} (h : startsWithTag tag (g ++ rest) = true) :
    startsWithTag (tag.take g.length) g = true := by
  induction tag generalizing g with
  | nil => cases g <;> rfl
  | cons a tag ih =>
    cases g with
    | nil => rfl
    | cons c g =>
      rw [List.cons_append, startsWithTag, Bool.and_eq_true] at h
      rw [List.length_cons, List.take_succ_cons, startsWithTag, h.1, ih h.2]
      rfl

/-- No glyph takes a symbol of an opening tag. -/
theorem startsWithTag_opening_stored (hm : GlyphsMeetTags m)
    (h : startsWithTag Tags.object.opening (typed m) = true) :
    startsWithTag Tags.object.opening (stored m) = true := by
  rcases startsWithTag_stored_of_typed h with hstored | ⟨x, code, g, rest, rfl, hlt, hstart⟩
  · exact hstored
  · have hg := (hm code g (List.mem_append_right _ List.mem_cons_self)).opening x.length hlt
    rw [startsWithTag_take hstart] at hg
    cases hg

/-- A glyph that takes a symbol of a closing tag takes the last one. -/
theorem startsWithTag_closing_stored (hm : GlyphsMeetTags m)
    (h : startsWithTag Tags.object.closing (typed m) = true) :
    startsWithTag Tags.object.closing (stored m) = true
      ∨ ∃ x code rest, rest ∈ glyphRests ∧ symbols x ++ [.item code ('>' :: rest)] <+: m
        ∧ EqUpToCase (x ++ ['>']) Tags.object.closing := by
  rcases startsWithTag_stored_of_typed h with hstored | ⟨x, code, g, m', rfl, hlt, hstart⟩
  · exact Or.inl hstored
  · obtain ⟨hx, rest, hrest, rfl⟩ :=
      (hm code g (List.mem_append_right _ List.mem_cons_self)).closing
      x.length hlt (startsWithTag_take hstart)
    refine Or.inr ⟨x, code, rest, hrest, ⟨m', by simp⟩, ?_⟩
    have hlength : Tags.object.closing.length = (x ++ ['>']).length := by
      rw [List.length_append, ← hx]
      rfl
    have htext : typed (symbols x ++ .item code ('>' :: rest) :: m')
        = (x ++ ['>']) ++ (rest ++ typed m') := by
      simp [Piece.source]
    rw [startsWithTag_iff, htext, hlength, List.take_left] at h
    exact h

/-- The tag that is stored is the one that was typed, but a closing one may be missed. -/
theorem tagAt_stored_cases (hm : GlyphsMeetTags m) :
    tagAt (stored m) = tagAt (typed m)
      ∨ tagAt (typed m) = some .closing ∧ tagAt (stored m) = none := by
  cases hstored : tagAt (stored m) with
  | some k => exact Or.inl (tagAt_typed_of_stored hstored).symm
  | none =>
    cases htyped : tagAt (typed m) with
    | none => exact Or.inl rfl
    | some k =>
      cases k with
      | closing => exact Or.inr ⟨rfl, rfl⟩
      | opening =>
        have hopening := startsWithTag_opening_stored hm (tagAt_eq_opening_iff.1 htyped)
        rw [← tagAt_eq_opening_iff, hstored] at hopening
        cases hopening

/-- A piece starts where a tag might. -/
theorem exists_append_of_head?_drop (hm : GlyphsMeetTags m)
    (h : ((typed m).drop i).head? = some '<') : ∃ a c, m = a ++ c ∧ (typed a).length = i := by
  induction m generalizing i with
  | nil => simp at h
  | cons p m ih =>
    have hm' : GlyphsMeetTags m := fun code g hg => hm code g (List.mem_cons_of_mem p hg)
    rcases Nat.lt_or_ge i p.source.length with hlt | hge
    · rcases Nat.eq_zero_or_pos i with rfl | hpos
      · exact ⟨[], p :: m, rfl, rfl⟩
      · -- a glyph holds the symbol at its start only
        rw [typed_cons, List.head?_drop, List.getElem?_append_left hlt] at h
        cases p with
        | symbol c =>
          have hlt : i < 1 := hlt
          omega
        | item code g =>
          obtain ⟨j, rfl⟩ := Nat.exists_eq_add_of_lt hpos
          rw [Nat.zero_add, Piece.source, ← List.getElem?_tail] at h
          exact absurd (List.mem_of_getElem? h) (hm code g List.mem_cons_self).tail
    · obtain ⟨j, rfl⟩ := Nat.exists_eq_add_of_le hge
      rw [typed_cons, ← List.drop_drop, List.drop_left] at h
      obtain ⟨a, c, rfl, hlen⟩ := ih hm' h
      exact ⟨p :: a, c, rfl, by rw [typed_cons, List.length_append, hlen]⟩

theorem head?_of_tagAt (h : tagAt t ≠ none) : t.head? = some '<' := by
  cases t with
  | nil => exact absurd tagAt_nil h
  | cons c t =>
    by_contra hc
    exact h (tagAt_cons_of_ne (by simpa using hc) t)

/-- Of what was typed, storing misses closing tags only. -/
theorem readsTags_storedTag (hm : GlyphsMeetTags m) : ReadsTags (storedTag m) (typed m) := by
  intro i
  cases hfrom : piecesFrom m i with
  | some c =>
    obtain ⟨a, rfl, rfl⟩ := exists_of_piecesFrom hfrom
    rw [storedTag, hfrom, Option.bind_some, typed_append, List.drop_left]
    exact tagAt_stored_cases fun code g hg => hm code g (List.mem_append_right a hg)
  | none =>
    -- where no piece starts nothing is stored, and no tag can have been typed
    refine Or.inl ?_
    rw [storedTag, hfrom, Option.bind_none]
    by_contra hsome
    obtain ⟨a, c, rfl, rfl⟩ := exists_append_of_head?_drop hm (head?_of_tagAt (Ne.symm hsome))
    have ha : Sourced a := fun p hp => hm.sourced p (List.mem_append_left c hp)
    rw [piecesFrom_append ha] at hfrom
    cases hfrom

/-! ## Where closing tags are missed -/

/-- In the word the rest of a glyph stands behind a closing tag. -/
def ClosingMeetsGlyph (word : Text) : Prop :=
  ∃ v ∈ word.tails, startsWithTag Tags.object.closing v = true
    ∧ ∃ rest ∈ glyphRests, rest <+: v.drop Tags.object.closing.length

instance (word : Text) : Decidable (ClosingMeetsGlyph word) :=
  inferInstanceAs (Decidable (∃ v ∈ word.tails, _ ∧ ∃ rest ∈ glyphRests, rest <+: _))

theorem ClosingMeetsGlyph.of_typed {x rest word : Text} (hrest : rest ∈ glyphRests)
    (hx : EqUpToCase (x ++ ['>']) Tags.object.closing) (h : x ++ '>' :: rest <:+: word) :
    ClosingMeetsGlyph word := by
  obtain ⟨u, w, rfl⟩ := h
  have hlength : Tags.object.closing.length = (x ++ ['>']).length := by
    simpa using (congrArg List.length hx).symm
  have hsplit : x ++ '>' :: rest ++ w = (x ++ ['>']) ++ (rest ++ w) := by simp
  refine ⟨x ++ '>' :: rest ++ w, ?_, ?_, rest, hrest, ?_⟩
  · rw [List.mem_tails]
    exact ⟨u, by simp⟩
  · rw [startsWithTag_iff, hsplit, hlength, List.take_left]
    exact hx
  · rw [hsplit, hlength, List.drop_left]
    exact List.prefix_append rest w

/-- Up to case the symbols of a tag are no blanks. -/
theorem isBlank_of_eqUpToCase {x tag : Text} (htag : Solid tag) (h : EqUpToCase x tag) {c : Char}
    (hc : c ∈ x) : isBlank c = false := by
  have hlower : c.toLower ∈ tag.map Char.toLower := by
    rw [← h]
    exact List.mem_map_of_mem hc
  obtain ⟨a, ha, hac⟩ := List.mem_map.1 hlower
  by_contra hblank
  rw [Bool.not_eq_false] at hblank
  have hsolid := htag a ha
  rw [hac, toLower_of_isBlank hblank, hblank] at hsolid
  cases hsolid

/-- The pieces at a closing tag that is missed. -/
theorem exists_item_of_closing_missed (hm : GlyphsMeetTags m)
    (htyped : tagAt ((typed m).drop i) = some .closing) (hstored : storedTag m i = none) :
    ∃ x code rest, rest ∈ glyphRests ∧ symbols x ++ [.item code ('>' :: rest)] <:+: m
      ∧ EqUpToCase (x ++ ['>']) Tags.object.closing := by
  obtain ⟨a, c, rfl, rfl⟩ :=
    exists_append_of_head?_drop hm (head?_of_tagAt (by rw [htyped]; simp))
  have ha : Sourced a := fun p hp => hm.sourced p (List.mem_append_left c hp)
  have hc : GlyphsMeetTags c := fun code g hg => hm code g (List.mem_append_right a hg)
  rw [storedTag, piecesFrom_append ha, Option.bind_some] at hstored
  rw [typed_append, List.drop_left, tagAt_eq_closing_iff] at htyped
  rcases startsWithTag_closing_stored hc htyped with hstart | ⟨x, code, rest, hrest, hpre, hx⟩
  · rw [← tagAt_eq_closing_iff, hstored] at hstart
    cases hstart
  · exact ⟨x, code, rest, hrest, hpre.isInfix.trans (List.suffix_append a c).isInfix, hx⟩

/-! ## Messages -/

theorem glyphsMeetTags_messagePieces (keep : Text → Bool) (t : Text) :
    GlyphsMeetTags (messagePieces .standard keep t) := fun code g hg =>
  meetsTags_standard (g, code) (of_item_mem_messagePieces hg)

/-- The tags of an encoded message are the stored tags of the message. -/
theorem tagsIn_encode (keep : Text → Bool) (t : Text) :
    tagsIn (encode .standard keep t)
      = tagsRead (storedTag (messagePieces .standard keep (spaceBlanks t))) 0 t.length := by
  have hlength : (spaceBlanks t).length = t.length := List.length_map _
  have hread := tagsRead_storedTag (glyphsMeetTags_messagePieces keep (spaceBlanks t)).sourced
  rw [typed_messagePieces, hlength, stored_messagePieces foreign_standard] at hread
  rw [hread, encode_eq_trim, tagsIn_trim]

theorem readsTags_message (keep : Text → Bool) (t : Text) :
    ReadsTags (storedTag (messagePieces .standard keep (spaceBlanks t))) t := by
  intro i
  have hread := readsTags_storedTag (glyphsMeetTags_messagePieces keep (spaceBlanks t)) i
  have hdrop : (spaceBlanks t).drop i = spaceBlanks (t.drop i) := (List.map_drop ..).symm
  rwa [typed_messagePieces, hdrop, tagAt_spaceBlanks] at hread

/-- The encoded message has as many blocks as the message, and none that is never closed. -/
def BlocksSurvive (t : Text) : Prop :=
  .unterminated ∉ events .object (encode .standard Link.isWeb t)
    ∧ (events .object (encode .standard Link.isWeb t)).countP Event.isBlock
      = (events .object t).countP Event.isBlock

theorem blocksSurvive_iff_keepsBlocks (hclosed : .unterminated ∉ events .object t) :
    BlocksSurvive t
      ↔ KeepsBlocks (storedTag (messagePieces .standard Link.isWeb (spaceBlanks t))) 0
          (slices .object t) := by
  have hopening : (slices .object t).any Slice.isOpening = false := by
    rwa [unterminated_mem_events_iff, Bool.not_eq_true] at hclosed
  have hcounted := (counted_sliceBlocks object_closing_ne_nil (readsTags_message Link.isWeb t)
    (List.drop_zero (l := t))).2
  rw [← slices_object, ← tagsIn_encode] at hcounted
  rw [← (hcounted hopening).outside, tagsIn, blockCount_tagsRead, BlocksSurvive,
    countP_isBlock_events .object t]
  split <;> simp [*]

/-- A closing tag is missed only in a word that is not kept, and in front of the rest of a glyph. -/
theorem exists_word_of_closing_missed {keep : Text → Bool}
    (htyped : tagAt (t.drop i) = some .closing)
    (hstored : storedTag (messagePieces .standard keep (spaceBlanks t)) i = none) :
    ∃ line ∈ lines (spaceBlanks t), ∃ word ∈ words line,
      keep word = false ∧ ClosingMeetsGlyph word := by
  have htyped' : tagAt ((typed (messagePieces .standard keep (spaceBlanks t))).drop i)
      = some .closing := by
    rw [typed_messagePieces, spaceBlanks, ← List.map_drop, ← spaceBlanks, tagAt_spaceBlanks, htyped]
  obtain ⟨x, code, rest, hrest, hpart, hx⟩ := exists_item_of_closing_missed
    (glyphsMeetTags_messagePieces keep (spaceBlanks t)) htyped' hstored
  -- up to the glyph there is no blank, so all of it is in one word
  have hblank : ∀ b, isBlank b = true → .symbol b ∉ symbols x ++ [.item code ('>' :: rest)] := by
    intro b hb hmem
    have hmem : b ∈ x := by simpa [symbols] using hmem
    rw [isBlank_of_eqUpToCase solid_object.2 hx (List.mem_append_left _ hmem)] at hb
    cases hb
  obtain ⟨line, hline, word, hword, hpart⟩ := exists_word_of_infix hpart (by simp)
    (hblank ' ' (by decide)) (hblank '\n' (by decide))
  refine ⟨line, hline, word, hword, ?_, .of_typed hrest hx ?_⟩
  · exact (of_item_mem_wordPieces (hpart.subset (List.mem_append_right _ List.mem_cons_self))).1
  · obtain ⟨u, v, huv⟩ := hpart
    rw [← typed_wordPieces .standard keep word, ← huv]
    exact ⟨typed u, typed v, by simp [Piece.source]⟩

/-- At position `i` of the message a closing tag was typed, and no symbol of it belongs to a glyph
that became a marker. -/
def KeepsClosingAt (t : Text) (i : Nat) : Prop :=
  ∃ a c, messagePieces .standard Link.isWeb (spaceBlanks t) = a ++ c ∧ (typed a).length = i
    ∧ startsWithTag Tags.object.closing (stored c) = true

/-- **Blocks in encoded messages.** If no block of a message is left open, encoding keeps all of
them exactly if each has a closing tag that is stored as it was typed, at its own end or in the
plain text behind it. That is so if in no word but links a closing tag is followed by the rest of a
glyph that starts with its last symbol. Where the blocks survive, no markup is given up on
display. -/
theorem encode_keeps_blocks (t : Text) :
    (.unterminated ∉ events .object t →
      (BlocksSurvive t ↔ ∀ before b q after,
          slices .object t = before ++ .block b :: .plain q :: after →
          ∃ i, (before.flatMap Slice.source).length ≤ i
            ∧ i < (before.flatMap Slice.source).length + (b ++ q).length ∧ KeepsClosingAt t i)
      ∧ ((∀ line ∈ lines (spaceBlanks t), ∀ word ∈ words line, Link.isWeb word = false →
          ¬ ClosingMeetsGlyph word) → BlocksSurvive t))
    ∧ ∀ o : DisplayOptions, o.tags = .object → (o.readMarkup = true → BlocksSurvive t) →
        (Display.ofMessage .standard o (encode .standard Link.isWeb t)).incomplete = false := by
  refine ⟨fun hclosed => ⟨?_, fun hwords => ?_⟩, fun o htags hsurvive => ?_⟩
  · rw [blocksSurvive_iff_keepsBlocks hclosed]
    have hmeet := glyphsMeetTags_messagePieces Link.isWeb (spaceBlanks t)
    simp only [KeepsBlocks, mem_tagsRead_iff, storedTag_eq_some_iff hmeet.sourced,
      tagAt_eq_closing_iff, KeepsClosingAt, Nat.zero_add]
  · rw [blocksSurvive_iff_keepsBlocks hclosed]
    refine keepsBlocks_of_read fun i => ?_
    rcases readsTags_message Link.isWeb t i with heq | ⟨htyped, hstored⟩
    · exact heq
    · obtain ⟨line, hline, word, hword, hkeep, hmeets⟩ :=
        exists_word_of_closing_missed htyped hstored
      exact absurd hmeets (hwords line hline word hword hkeep)
  · rw [← Bool.not_eq_true, incomplete_ofMessage_iff, htags]
    rintro ⟨hread, hopen⟩
    exact (hsurvive hread).1 hopen

/-- Behind the closing tags stand a glyph that takes no symbol of them, a blank, and the rest of one
that would, but in a link. -/
theorem encode_keeps_blocks_smileys :
    let t := "<object>:-)</OBJECT>:-) www.<object></object>:-( <Object></object> :-(".toList
    (.unterminated ∉ events .object t ∧ (events .object t).countP Event.isBlock = 3)
      ∧ (∀ line ∈ lines (spaceBlanks t), ∀ word ∈ words line, Link.isWeb word = false →
          ¬ ClosingMeetsGlyph word)
      ∧ BlocksSurvive t
      ∧ (Display.ofMessage .standard {} (encode .standard Link.isWeb t)).incomplete = false := by
  have hevents : events .object
        "<object>:-)</OBJECT>:-) www.<object></object>:-( <Object></object> :-(".toList
      = [.plain [], .block "<object>:-)</OBJECT>".toList, .plain ":-) www.".toList,
        .block "<object></object>".toList, .plain ":-( ".toList,
        .block "<Object></object>".toList, .plain " :-(".toList] := by
    cbv
  intro t
  have hclosed : .unterminated ∉ events .object t := by
    rw [show events .object t = _ from hevents]
    decide
  have hcount : (events .object t).countP Event.isBlock = 3 := by
    rw [show events .object t = _ from hevents]
    rfl
  have hwords : ∀ line ∈ lines (spaceBlanks t), ∀ word ∈ words line, Link.isWeb word = false →
      ¬ ClosingMeetsGlyph word := by
    decide +kernel
  have hsurvive : BlocksSurvive t := ((encode_keeps_blocks t).1 hclosed).2 hwords
  exact ⟨⟨hclosed, hcount⟩, hwords, hsurvive,
    (encode_keeps_blocks t).2 {} rfl fun _ => hsurvive⟩

/-- The last symbol of a closing tag is taken for the first of a glyph, and the block is lost. -/
theorem encode_breaks_block :
    let t := "<object></object>:-(".toList
    encode .standard Link.isWeb t = "<object></object$23$".toList
      ∧ .unterminated ∉ events .object t ∧ ¬ BlocksSurvive t
      ∧ (Display.ofMessage .standard {} t).incomplete = false
      ∧ (Display.ofMessage .standard {} (encode .standard Link.isWeb t)).incomplete = true := by
  have hencode : encode .standard Link.isWeb "<object></object>:-(".toList
      = "<object></object$23$".toList := by
    rw [encode, Registry.substitutions_standard]
    decide +kernel
  have hevents : events .object "<object></object>:-(".toList
      = [.plain [], .block "<object></object>".toList, .plain ":-(".toList] := by
    cbv
  have hopen : events .object "<object></object$23$".toList
      = [.plain [], .unterminated, .plain "></object$23$".toList] := by
    cbv
  intro t
  have hclosed : .unterminated ∉ events .object t := by
    rw [show events .object t = _ from hevents]
    decide
  have hlost : .unterminated ∈ events .object (encode .standard Link.isWeb t) := by
    rw [show encode .standard Link.isWeb t = _ from hencode, hopen]
    decide
  refine ⟨hencode, hclosed, fun hsurvive => hsurvive.1 hlost, ?_, ?_⟩
  · rw [← Bool.not_eq_true, incomplete_ofMessage_iff]
    exact fun h => hclosed h.2
  · exact (incomplete_ofMessage_iff _ _ _).2 ⟨rfl, hlost⟩

end ChatText
