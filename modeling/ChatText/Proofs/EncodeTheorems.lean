import ChatText.Link
import ChatText.Proofs.LineTheorems
import ChatText.Proofs.MarkedGlyphs
import ChatText.Proofs.TokenTheorems
import ChatText.Registry.Draft
import Mathlib

/-!
# Encoding loses nothing that was typed

`Encodes e t` says that the stored text `e` is the typed text `t` with some glyphs as markers. It
holds of single words, it is kept when words and lines are joined and when both texts are trimmed,
and so it holds of whole messages (`encodes_encode`). Where the typed text has no delimiters of its
own, decoding what is stored finds just these markers (`decode_stored`).
-/

namespace ChatText

variable {substitutions : List (Text × UInt32)}

/-- `e` is `t` with some occurrences of glyphs as the markers of their codes. -/
def Encodes (substitutions : List (Text × UInt32)) (e t : Text) : Prop :=
  ∃ m, stored m = e ∧ typed m = t
    ∧ ∀ code g, .item code g ∈ m → (g, code) ∈ substitutions ∧ ∀ c ∈ g, isBlank c = false

/-! ## Words and what is made of them -/

theorem Encodes.refl (t : Text) : Encodes substitutions t t :=
  ⟨symbols t, stored_symbols t, typed_symbols t, fun code g h => by simp [symbols] at h⟩

theorem Encodes.append {e e' t t' : Text} (h : Encodes substitutions e t)
    (h' : Encodes substitutions e' t') : Encodes substitutions (e ++ e') (t ++ t') := by
  obtain ⟨m, rfl, rfl, hm⟩ := h
  obtain ⟨m', rfl, rfl, hm'⟩ := h'
  refine ⟨m ++ m', stored_append m m', typed_append m m', fun code g hg => ?_⟩
  rcases List.mem_append.1 hg with hg | hg
  · exact hm code g hg
  · exact hm' code g hg

/-- Texts that encode others do so when they are joined in the same way. -/
theorem Encodes.intercalate {f : Text → Text} (c : Char) {ts : List Text}
    (h : ∀ t ∈ ts, Encodes substitutions (f t) t) :
    Encodes substitutions ([c].intercalate (ts.map f)) ([c].intercalate ts) := by
  have hjoin := rel_intercalate (R := Encodes substitutions) (g := id) (.refl []) append
    (.refl [c]) h
  rwa [List.map_id] at hjoin

/-- A word without blanks is encoded by what becomes of it. -/
theorem encodes_encodeWord (hforeign : ∀ s ∈ substitutions, Marker.Foreign s.1)
    (keep : Text → Bool) {word : Text} (hword : ∀ c ∈ word, isBlank c = false) :
    Encodes substitutions (encodeWord substitutions keep word) word := by
  rw [encodeWord]
  split
  · exact .refl word
  · refine ⟨markGlyphs substitutions (symbols word), ?_, ?_, fun code g hg => ?_⟩
    · rw [stored_markGlyphs hforeign, stored_symbols]
    · rw [typed_markGlyphs, typed_symbols]
    · refine ⟨?_, fun c hc => hword c ?_⟩
      · rcases of_item_mem_markGlyphs hg with hold | hs
        · simp [symbols] at hold
        · exact hs
      · -- the glyph is a part of what was typed, and that is the word
        have hmem : c ∈ typed (markGlyphs substitutions (symbols word)) :=
          List.mem_flatMap.2 ⟨_, hg, hc⟩
        rwa [typed_markGlyphs, typed_symbols] at hmem

/-! ## Trimming -/

/-- Is the piece a blank that was typed? -/
def Piece.isBlankSymbol : Piece UInt32 → Bool
  | symbol c => isBlank c
  | item _ _ => false

/-- Written by `f`, the blank pieces are blanks, and the others are texts without blanks. -/
def ShowsBlanks (f : Piece UInt32 → Text) (m : List (Piece UInt32)) : Prop :=
  ∀ p ∈ m, (p.isBlankSymbol = true → ∃ c, f p = [c] ∧ isBlank c = true)
    ∧ (p.isBlankSymbol = false → f p ≠ [] ∧ ∀ c ∈ f p, isBlank c = false)

/-- Dropping the blanks in front of a text made of pieces is dropping the blank pieces. -/
theorem dropWhile_isBlank_flatMap {f : Piece UInt32 → Text} {m : List (Piece UInt32)}
    (hf : ShowsBlanks f m) :
    (m.flatMap f).dropWhile isBlank = (m.dropWhile Piece.isBlankSymbol).flatMap f := by
  induction m with
  | nil => rfl
  | cons p m ih =>
    rw [ShowsBlanks, List.forall_mem_cons] at hf
    rw [List.flatMap_cons]
    cases hp : p.isBlankSymbol with
    | true =>
      obtain ⟨c, hc, hblank⟩ := hf.1.1 hp
      rw [hc, List.singleton_append, List.dropWhile_cons_of_pos hblank,
        List.dropWhile_cons_of_pos hp, ih hf.2]
    | false =>
      obtain ⟨hne, hsolid⟩ := hf.1.2 hp
      obtain ⟨c, rest, hc⟩ := List.exists_cons_of_ne_nil hne
      have hfirst : ¬ isBlank c = true := by simp [hsolid c (by rw [hc]; exact List.mem_cons_self)]
      rw [List.dropWhile_cons_of_neg (by simp [hp]), List.flatMap_cons, hc, List.cons_append,
        List.dropWhile_cons_of_neg hfirst]

/-- The pieces without the blank ones at both ends. -/
def trimPieces (m : List (Piece UInt32)) : List (Piece UInt32) :=
  ((m.dropWhile Piece.isBlankSymbol).reverse.dropWhile Piece.isBlankSymbol).reverse

theorem mem_of_mem_trimPieces {m : List (Piece UInt32)} {p : Piece UInt32}
    (h : p ∈ trimPieces m) : p ∈ m := by
  rw [trimPieces, List.mem_reverse] at h
  have h' := (List.dropWhile_suffix _).subset h
  rw [List.mem_reverse] at h'
  exact (List.dropWhile_suffix _).subset h'

/-- Trimming a text made of pieces is trimming the pieces. -/
theorem trim_flatMap {f : Piece UInt32 → Text} {m : List (Piece UInt32)}
    (hf : ShowsBlanks f m) :
    trim (m.flatMap f) = (trimPieces m).flatMap f := by
  -- the blanks at the end are in front of the reversed pieces
  rw [trim, dropWhile_isBlank_flatMap hf, List.reverse_flatMap,
    dropWhile_isBlank_flatMap fun p hp => ?_, trimPieces, List.reverse_flatMap]
  · simp [Function.comp_def]
  · have hmem : p ∈ m := (List.dropWhile_suffix _).subset (List.mem_reverse.1 hp)
    refine ⟨fun hblank => ?_, fun hsolid => ?_⟩
    · obtain ⟨c, hc, h⟩ := (hf p hmem).1 hblank
      exact ⟨c, by simp [hc], h⟩
    · simpa using (hf p hmem).2 hsolid

theorem Encodes.trim (hforeign : ∀ s ∈ substitutions, Marker.Foreign s.1) {e t : Text}
    (h : Encodes substitutions e t) : Encodes substitutions (trim e) (trim t) := by
  obtain ⟨m, rfl, rfl, hm⟩ := h
  have hstored : ShowsBlanks Piece.stored m := by
    intro p hp
    cases p with
    | symbol c =>
      exact ⟨fun h => ⟨c, rfl, h⟩, fun h => ⟨List.cons_ne_nil c [], by simpa [Piece.stored]⟩⟩
    | item code g =>
      refine ⟨fun h => Bool.noConfusion h, fun _ => ⟨List.cons_ne_nil _ _, fun c hc => ?_⟩⟩
      exact (Marker.isSymbol_of_mem_enclose (Marker.isDigits_decimal code.toNat) hc).not_blank
  have htyped : ShowsBlanks Piece.source m := by
    intro p hp
    cases p with
    | symbol c =>
      exact ⟨fun h => ⟨c, rfl, h⟩, fun h => ⟨List.cons_ne_nil c [], by simpa [Piece.source]⟩⟩
    | item code g =>
      obtain ⟨hs, hblank⟩ := hm code g hp
      exact ⟨fun h => Bool.noConfusion h, fun _ => ⟨(hforeign (g, code) hs).ne_nil, hblank⟩⟩
  exact ⟨trimPieces m, (trim_flatMap hstored).symm, (trim_flatMap htyped).symm,
    fun code g hg => hm code g (mem_of_mem_trimPieces hg)⟩

theorem mem_of_mem_trim {t : Text} {c : Char} (h : c ∈ trim t) : c ∈ t := by
  rw [trim, List.mem_reverse] at h
  have h' := (List.dropWhile_suffix _).subset h
  rw [List.mem_reverse] at h'
  exact (List.dropWhile_suffix _).subset h'

/-! ## Whole messages -/

/-- Where blanks have become spaces, only spaces and newlines are blank, and nothing else is new. -/
theorem of_mem_spaceBlanks {t : Text} {c : Char} (h : c ∈ spaceBlanks t) :
    (c = ' ' ∨ c ∈ t) ∧ (c = ' ' ∨ c = '\n' ∨ isBlank c = false) := by
  rw [spaceBlanks, List.mem_map] at h
  obtain ⟨x, hx, rfl⟩ := h
  split
  · exact ⟨Or.inl rfl, Or.inl rfl⟩
  · rename_i hnot
    refine ⟨Or.inr hx, Or.inr ?_⟩
    by_cases hnew : x = '\n'
    · exact Or.inl hnew
    · exact Or.inr (by simpa [hnew] using hnot)

variable {r : Registry}

theorem mem_substitutions_iff {g : Text} {code : UInt32} :
    (g, code) ∈ r.substitutions ↔ g ∈ r.glyphs ∧ r.codeFor? g = some code := by
  simp only [Registry.substitutions, Registry.glyphsLongestFirst, List.mem_filterMap,
    List.mem_mergeSort, Option.map_eq_some_iff, Prod.mk.injEq]
  constructor
  · rintro ⟨g', hg', code', hcode, rfl, rfl⟩
    exact ⟨hg', hcode⟩
  · rintro ⟨hg, hcode⟩
    exact ⟨g, hg, code, hcode, rfl, rfl⟩

/-- A message encoded line by line and word by word, and not trimmed yet. -/
def encodeLines (r : Registry) (keep : Text → Bool) (t : Text) : Text :=
  unlines ((lines t).map fun line => unwords ((words line).map (encodeWord r.substitutions keep)))

theorem encode_eq_trim (r : Registry) (keep : Text → Bool) (t : Text) :
    encode r keep t = trim (encodeLines r keep (spaceBlanks t)) := rfl

/-- The newline at the end of a message is trimmed away. -/
theorem encode_append_newline (r : Registry) (keep : Text → Bool) (t : Text) :
    encode r keep (t ++ ['\n']) = encode r keep t := by
  have hspace : spaceBlanks (t ++ ['\n']) = spaceBlanks t ++ ['\n'] := by
    simp [spaceBlanks]
  have hlines : encodeLines r keep (spaceBlanks t ++ ['\n'])
      = encodeLines r keep (spaceBlanks t) ++ ['\n'] := by
    have hne : (lines (spaceBlanks t)).map
        (fun line => unwords ((words line).map (encodeWord r.substitutions keep))) ≠ [] := by
      simpa using lines_ne_nil (spaceBlanks t)
    rw [encodeLines, lines_append_newline, List.map_append, unlines, List.map_singleton,
      intercalate_concat '\n' hne]
    simp [words, unwords, encodeWord, encodeLines, unlines]
  rw [encode_eq_trim, encode_eq_trim, hspace, hlines, trim_append_blank _ (by decide)]

/-- The words of a message whose blanks have become spaces hold no blanks. -/
theorem isBlank_of_mem_word {t line word : Text} (hline : line ∈ lines (spaceBlanks t))
    (hword : word ∈ words line) {c : Char} (hc : c ∈ word) : isBlank c = false := by
  obtain ⟨hc, hspace⟩ := of_mem_words hword hc
  obtain ⟨hc, hnewline⟩ := of_mem_lines hline hc
  exact ((of_mem_spaceBlanks hc).2.resolve_left hspace).resolve_left hnewline

/-- What the lines of a message are encoded by is the message with some glyphs as markers. -/
theorem encodes_encodeLines (hforeign : ∀ g ∈ r.glyphs, Marker.Foreign g) (keep : Text → Bool)
    (t : Text) :
    Encodes r.substitutions (encodeLines r keep (spaceBlanks t)) (spaceBlanks t) := by
  have hsubs : ∀ s ∈ r.substitutions, Marker.Foreign s.1 := fun s hs =>
    hforeign s.1 (mem_substitutions_iff.1 hs).1
  have hlines : Encodes r.substitutions (encodeLines r keep (spaceBlanks t))
      (unlines (lines (spaceBlanks t))) := by
    refine Encodes.intercalate '\n' fun line hline => ?_
    have hwords : Encodes r.substitutions
        (unwords ((words line).map (encodeWord r.substitutions keep))) (unwords (words line)) :=
      Encodes.intercalate ' ' fun word hword =>
        encodes_encodeWord hsubs keep fun c hc => isBlank_of_mem_word hline hword hc
    rwa [unwords_words] at hwords
  rwa [unlines_lines] at hlines

/-- An encoded message is the typed one, its blanks as spaces and trimmed, with some glyphs as
markers. -/
theorem encodes_encode (hforeign : ∀ g ∈ r.glyphs, Marker.Foreign g) (keep : Text → Bool)
    (t : Text) : Encodes r.substitutions (encode r keep t) (trim (spaceBlanks t)) :=
  (encodes_encodeLines hforeign keep t).trim fun s hs =>
    hforeign s.1 (mem_substitutions_iff.1 hs).1

/-- If no delimiter was typed, decoding what is stored finds the items again, and nothing else. -/
theorem decode_stored {m : List (Piece UInt32)}
    (htyped : ∀ c, .symbol c ∈ m → c ≠ Marker.delimiter)
    (hknown : ∀ code g, .item code g ∈ m → r.isKnown code = true) :
    decode r (stored m) = Token.ofPieces m := by
  induction m with
  | nil => rfl
  | cons p m ih =>
    have ih' := ih (fun c hc => htyped c (List.mem_cons_of_mem p hc))
      fun code g hg => hknown code g (List.mem_cons_of_mem p hg)
    rw [decode] at ih' ⊢
    cases p with
    | symbol c =>
      rw [stored_cons, Piece.stored, List.singleton_append,
        Piece.scan_cons_of_none (Marker.known_cons_of_ne _ (htyped c List.mem_cons_self) _),
        Token.ofPieces, ih', Token.ofPieces]
    | item code g =>
      rw [stored_cons, Piece.stored,
        Marker.scan_known_write_append (hknown code g List.mem_cons_self), Token.ofPieces, ih',
        Token.ofPieces]

/-- The text is a glyph that stands for the code. -/
def Registry.IsGlyphFor (r : Registry) (code : UInt32) (g : Text) : Prop :=
  g ∈ r.glyphs ∧ r.codeFor? g = some code

/-- **Round trip.** If the glyphs are foreign to markers and stand for known codes, a message typed
without delimiters comes back from its encoded form: each emoticon can be read as a glyph of its
code so that tokens and glyphs in order are the message, blanks as spaces and trimmed. -/
theorem exists_glyphs_decode_encode (hforeign : ∀ g ∈ r.glyphs, Marker.Foreign g)
    (hknown : ∀ g ∈ r.glyphs, (r.codeFor? g).all r.isKnown = true)
    (keep : Text → Bool) {t : Text} (ht : Marker.delimiter ∉ t) :
    ∃ texts, List.Forall₂ (Token.ReadFrom r.IsGlyphFor) (decode r (encode r keep t)) texts
      ∧ texts.flatten = trim (spaceBlanks t) := by
  obtain ⟨m, hstored, htyped, hm⟩ := encodes_encode hforeign keep t
  have hglyph : ∀ code g, .item code g ∈ m → r.IsGlyphFor code g := fun code g hg =>
    mem_substitutions_iff.1 (hm code g hg).1
  -- no delimiter was typed, and none comes in with spaces or by trimming
  have hsymbol : ∀ c, .symbol c ∈ m → c ≠ Marker.delimiter := by
    rintro c hc rfl
    have hmem : Marker.delimiter ∈ typed m := List.mem_flatMap.2 ⟨_, hc, List.mem_singleton_self _⟩
    rw [htyped] at hmem
    rcases (of_mem_spaceBlanks (mem_of_mem_trim hmem)).1 with h | h
    · revert h
      decide
    · exact ht h
  have hcode : ∀ code g, .item code g ∈ m → r.isKnown code = true := by
    intro code g hg
    obtain ⟨hmem, hfor⟩ := hglyph code g hg
    simpa [hfor] using hknown g hmem
  rw [← hstored, decode_stored hsymbol hcode, ← htyped]
  exact Token.parted_ofPieces hglyph

/-- A smiley for a bracket, and one for a longer glyph with a digit and the bracket in it. -/
def Registry.brackets : Registry :=
  .ofSteps [.icon 11 20 20 1, .glyph ")".toList, .icon 2 20 20 5, .glyph "1)".toList]

/-- The longer glyph comes first. -/
theorem substitutions_brackets :
    Registry.brackets.substitutions = [("1)".toList, 2), (")".toList, 11)] := by
  cbv

/-- Digits were typed next to a glyph and are part of another; a link is kept. -/
theorem exists_glyphs_decode_encode_brackets :
    encode .brackets Link.isWeb " 2)1)\t(1) www.1)\n".toList = "2$11$$2$ ($2$ www.1)".toList
      ∧ ∃ texts, List.Forall₂ (Token.ReadFrom Registry.brackets.IsGlyphFor)
            (decode .brackets (encode .brackets Link.isWeb " 2)1)\t(1) www.1)\n".toList)) texts
          ∧ texts.flatten = trim (spaceBlanks " 2)1)\t(1) www.1)\n".toList) := by
  constructor
  · rw [encode, substitutions_brackets]
    decide
  · exact exists_glyphs_decode_encode (by decide) (by decide) Link.isWeb (by decide)

end ChatText
