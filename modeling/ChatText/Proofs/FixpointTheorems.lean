import ChatText.Proofs.RewriteTheorems

/-!
# What is encoded stays as it is

Encoding leaves no glyph behind in the words that it is not told to keep, and so a second run finds
nothing to do. A word is done if it is kept or holds no glyph.

* A glyph that stands in what is stored of a word was typed there (`typedIn_of_infix_stored`), and
  at the end of the passes none is left (`done_encodeWord`);
* a word that is done is encoded by itself (`Registry.Done.encodeWord_eq`);
* the words of an encoded message are the encoded words of the message, but for some that were
  trimmed off (`of_mem_wordsOf_trim`, `wordsOf_unlines`).
-/

namespace ChatText

variable {r : Registry} {g : Text}

/-! ## Glyphs in stored words -/

/-- A foreign glyph that stands among the digits of a marker and what follows stands behind it. -/
theorem Marker.Foreign.infix_of_infix_digits (hg : Foreign g) {d t : Text}
    (hd : ∀ c ∈ d, c.isDigit = true) (h : g <:+: d ++ delimiter :: t) : g <:+: t := by
  induction d with
  | nil =>
    rcases List.infix_cons_iff.1 h with hstart | hlater
    · exact absurd hstart (hg.not_prefix_digits (d := []) (by simp) t)
    · exact hlater
  | cons c d ih =>
    rcases List.infix_cons_iff.1 h with hstart | hlater
    · exact absurd hstart (hg.not_prefix_digits hd t)
    · exact ih (fun x hx => hd x (List.mem_cons_of_mem c hx)) hlater

/-- A foreign glyph that stands in a text behind a marker stands behind that marker. -/
theorem Marker.Foreign.infix_of_infix_write (hg : Foreign g) {code : UInt32} {t : Text}
    (h : g <:+: write code ++ t) : g <:+: t := by
  have hwrite : write code ++ t = delimiter :: (decimal code.toNat ++ delimiter :: t) := by
    simp [write]
  rw [hwrite] at h
  exact hg.infix_of_infix_digits (isDigits_decimal code.toNat).2
    (hg.infix_of_infix_digits (d := []) (by simp) h)

/-- A foreign glyph stands in what is stored of a word only if it was typed there. -/
theorem typedIn_of_infix_stored (hg : Marker.Foreign g) {m : List (Piece UInt32)}
    (h : g <:+: stored m) : TypedIn g m := by
  induction m with
  | nil => exact absurd (List.infix_nil.1 h) hg.ne_nil
  | cons p m ih =>
    have hlater : g <:+: stored m → TypedIn g (p :: m) := fun h =>
      List.IsInfix.trans (ih h) (List.suffix_cons p m).isInfix
    cases p with
    | symbol c =>
      rcases List.infix_cons_iff.1 h with hstart | hinside
      · exact (symbols_prefix_of_prefix_stored (m := .symbol c :: m) hg.1 hstart).isInfix
      · exact hlater hinside
    | item code s => exact hlater (hg.infix_of_infix_write h)

/-! ## Words that are done -/

/-- A word is done if it is kept or if no glyph stands in it. -/
def Registry.Done (r : Registry) (keep : Text → Bool) (word : Text) : Prop :=
  keep word = true ∨ ∀ code g, r.IsGlyphFor code g → ¬ g <:+: word

/-- What a word is encoded by is done. -/
theorem done_encodeWord (hforeign : ∀ g ∈ r.glyphs, Marker.Foreign g) (keep : Text → Bool)
    (word : Text) : r.Done keep (encodeWord r.substitutions keep word) := by
  have hnonempty : ∀ g ∈ r.glyphs, g ≠ [] := fun g hg => (hforeign g hg).ne_nil
  rw [encodeWord_eq_stored hforeign]
  split
  · rename_i hkeep
    exact Or.inl hkeep
  · refine Or.inr fun code g hglyph hinside => ?_
    exact (rewritesTo_markGlyphs hnonempty word).2 code g hglyph
      (typedIn_of_infix_stored (hforeign g hglyph.1) hinside)

/-- A text is left alone if what is to be replaced does not stand in it. -/
theorem replaceAll_of_not_infix {replacement t : Text} (h : ¬ g <:+: t) :
    replaceAll g replacement t = t := by
  induction t with
  | nil => rfl
  | cons c t ih =>
    rw [List.infix_cons_iff, not_or] at h
    rw [replaceAll_cons_of_not_isPrefix h.1, ih h.2]

theorem substituteGlyphs_of_not_infix {substitutions : List (Text × UInt32)} {word : Text}
    (h : ∀ s ∈ substitutions, ¬ s.1 <:+: word) : substituteGlyphs substitutions word = word := by
  induction substitutions with
  | nil => rfl
  | cons s substitutions ih =>
    rw [List.forall_mem_cons] at h
    rw [substituteGlyphs, List.foldl_cons, replaceAll_of_not_infix h.1, ← substituteGlyphs, ih h.2]

/-- A word that is done is encoded by itself. -/
theorem Registry.Done.encodeWord_eq {keep : Text → Bool} {word : Text} (h : r.Done keep word) :
    encodeWord r.substitutions keep word = word := by
  rw [encodeWord]
  split
  · rfl
  · rename_i hwanted
    rw [not_or] at hwanted
    refine substituteGlyphs_of_not_infix fun s hs => ?_
    exact h.resolve_left hwanted.2 s.2 s.1 (mem_substitutions_iff.1 hs)

/-! ## The words of a message -/

/-- Is the symbol a space or a newline? -/
def isBreak (c : Char) : Bool := c == '\n' || c == ' '

/-- The runs of symbols between spaces and newlines, empty ones included. -/
def wordsOf (t : Text) : List Text := (lines t).flatMap words

/-- Splitting the parts of a split once more is splitting at the separators of both. -/
theorem flatMap_splitOnP {p q : Char → Bool} (t : Text) :
    (t.splitOnP p).flatMap (·.splitOnP q) = t.splitOnP fun c => p c || q c := by
  induction t with
  | nil => simp [List.splitOnP_nil]
  | cons c t ih =>
    rw [List.splitOnP_cons_eq_if_modifyHead, List.splitOnP_cons_eq_if_modifyHead, ← ih]
    obtain ⟨first, others, hsplit⟩ := List.exists_cons_of_ne_nil (List.splitOnP_ne_nil p t)
    rw [hsplit]
    by_cases hp : p c = true
    · simp [hp, List.splitOnP_nil]
    · by_cases hq : q c = true
      · simp [hp, hq, List.splitOnP_cons_eq_if_modifyHead]
      · obtain ⟨start, rest, hfirst⟩ :=
          List.exists_cons_of_ne_nil (List.splitOnP_ne_nil q first)
        simp [hp, hq, List.splitOnP_cons_eq_if_modifyHead, hfirst]

theorem wordsOf_eq_splitOnP (t : Text) : wordsOf t = t.splitOnP isBreak := by
  have hwords : words = fun line => line.splitOnP (· == ' ') :=
    funext fun line => List.splitOn_eq_splitOnP
  rw [wordsOf, hwords, lines, List.splitOn_eq_splitOnP, flatMap_splitOnP]
  rfl

/-- Trimming a text whose only blanks are spaces and newlines leaves it some of its words. -/
theorem of_mem_wordsOf_trim {t word : Text} (ht : ∀ c ∈ t, isBlank c = true → isBreak c = true)
    (h : word ∈ wordsOf (trim t)) : word ∈ wordsOf t := by
  obtain ⟨before, after, hsplit, hbefore, hafter⟩ := exists_blanks_trim t
  have hbreak : ∀ c, c ∈ before ∨ c ∈ after → isBreak c = true := by
    intro c hc
    refine ht c ?_ (hc.elim (hbefore c) (hafter c))
    rw [hsplit]
    rcases hc with hc | hc
    · exact List.mem_append_left _ (List.mem_append_left _ hc)
    · exact List.mem_append_right _ hc
  rw [wordsOf_eq_splitOnP] at h ⊢
  rw [hsplit]
  generalize trim t = inner at h
  -- next to the trimmed text there is nothing or a separator
  have hinner : word ∈ (inner ++ after).splitOnP isBreak := by
    cases after with
    | nil => rwa [List.append_nil]
    | cons c after =>
      rw [List.splitOnP_append_cons _ _ (hbreak c (Or.inr List.mem_cons_self))]
      exact List.mem_append_left _ h
  rw [List.append_assoc]
  rcases List.eq_nil_or_concat before with rfl | ⟨before, c, rfl⟩
  · exact hinner
  · have hc : isBreak c = true := hbreak c (Or.inl (by simp))
    rw [List.concat_eq_append, List.append_assoc, List.singleton_append,
      List.splitOnP_append_cons _ _ hc]
    exact List.mem_append_right _ hinner

/-- Words without spaces and newlines are the words of the lines they are joined to. -/
theorem wordsOf_unlines {ls : List (List Text)} (hls : ls ≠ []) (hne : ∀ ws ∈ ls, ws ≠ [])
    (h : ∀ ws ∈ ls, ∀ w ∈ ws, ∀ c ∈ w, isBreak c = false) :
    wordsOf (unlines (ls.map unwords)) = ls.flatten := by
  have hword : ∀ ws ∈ ls, ∀ w ∈ ws, w.splitOnP isBreak = [w] := fun ws hws w hw =>
    List.splitOnP_eq_singleton (h ws hws w hw)
  have hline : ∀ ws ∈ ls, (unwords ws).splitOnP isBreak = ws := by
    intro ws hws
    rw [unwords, splitOnP_intercalate (by decide) (hne ws hws), List.flatMap_congr (hword ws hws)]
    simp
  rw [wordsOf_eq_splitOnP, unlines, splitOnP_intercalate (by decide) (by simpa using hls),
    List.flatMap_map, List.flatMap_congr hline, List.flatMap_id']

/-! ## Encoded messages -/

/-- What encodes a text holds the symbols of markers and those of the text. -/
theorem Encodes.mem {substitutions : List (Text × UInt32)} {e t : Text}
    (h : Encodes substitutions e t) {c : Char} (hc : c ∈ e) : c ∈ t ∨ Marker.IsSymbol c := by
  obtain ⟨m, rfl, rfl, -⟩ := h
  obtain ⟨p, hp, hc⟩ := List.mem_flatMap.1 hc
  cases p with
  | symbol x => exact Or.inl (List.mem_flatMap.2 ⟨_, hp, hc⟩)
  | item code g =>
    exact Or.inr (Marker.isSymbol_of_mem_enclose (Marker.isDigits_decimal code.toNat) hc)

/-- The blanks of what encodes a text are blanks of the text. -/
theorem Encodes.mem_of_isBlank {substitutions : List (Text × UInt32)} {e t : Text}
    (h : Encodes substitutions e t) {c : Char} (hc : c ∈ e) (hblank : isBlank c = true) :
    c ∈ t := by
  refine (h.mem hc).resolve_right fun hsymbol => ?_
  rw [hsymbol.not_blank] at hblank
  cases hblank

/-- Where blanks have become spaces, all blanks are spaces and newlines. -/
theorem isBreak_of_mem_spaceBlanks {t : Text} {c : Char} (hc : c ∈ spaceBlanks t)
    (hblank : isBlank c = true) : isBreak c = true := by
  rcases (of_mem_spaceBlanks hc).2 with rfl | rfl | hnot
  · rfl
  · rfl
  · rw [hnot] at hblank
    cases hblank

/-- Where all blanks are spaces and newlines, none becomes a space. -/
theorem spaceBlanks_eq_self {t : Text} (h : ∀ c ∈ t, isBlank c = true → isBreak c = true) :
    spaceBlanks t = t := by
  refine (List.map_congr_left fun c hc => ?_).trans (List.map_id t)
  split
  · rename_i hblank
    have hbreak := h c hc hblank.2
    simp only [isBreak, Bool.or_eq_true, beq_iff_eq] at hbreak
    exact (hbreak.resolve_left hblank.1).symm
  · rfl

/-- The words of an encoded message are words of the message, encoded. -/
theorem exists_of_mem_wordsOf_encode (hforeign : ∀ g ∈ r.glyphs, Marker.Foreign g)
    {keep : Text → Bool} {t word : Text} (h : word ∈ wordsOf (encode r keep t)) :
    ∃ source, word = encodeWord r.substitutions keep source := by
  have hsubs : ∀ s ∈ r.substitutions, Marker.Foreign s.1 := fun s hs =>
    hforeign s.1 (mem_substitutions_iff.1 hs).1
  have hblanks : ∀ c ∈ encodeLines r keep (spaceBlanks t), isBlank c = true → isBreak c = true :=
    fun c hc hblank => isBreak_of_mem_spaceBlanks
      ((encodes_encodeLines hforeign keep t).mem_of_isBlank hc hblank) hblank
  rw [encode_eq_trim] at h
  have hword := of_mem_wordsOf_trim hblanks h
  -- the words of the message, encoded one by one
  let f := fun line => (words line).map (encodeWord r.substitutions keep)
  have hencoded : encodeLines r keep (spaceBlanks t)
      = unlines (((lines (spaceBlanks t)).map f).map unwords) := by
    rw [List.map_map]
    rfl
  rw [hencoded, wordsOf_unlines (by simp [lines]) (by simp [f, words]) ?_] at hword
  · obtain ⟨ws, hws, hword⟩ := List.mem_flatten.1 hword
    obtain ⟨line, -, rfl⟩ := List.mem_map.1 hws
    obtain ⟨source, -, rfl⟩ := List.mem_map.1 hword
    exact ⟨source, rfl⟩
  · intro ws hws w hw c hc
    obtain ⟨line, hline, rfl⟩ := List.mem_map.1 hws
    obtain ⟨source, hsource, rfl⟩ := List.mem_map.1 hw
    by_contra hbreak
    have hblank : isBlank c = true := by
      simp only [isBreak, Bool.or_eq_true, beq_iff_eq, Bool.not_eq_false] at hbreak
      rcases hbreak with rfl | rfl <;> decide
    have hmem := (encodes_encodeWord hsubs keep fun c hc =>
      isBlank_of_mem_word hline hsource hc).mem_of_isBlank hc hblank
    rw [isBlank_of_mem_word hline hsource hmem] at hblank
    cases hblank

/-- If all words of a text are done and its only blanks are spaces and newlines, encoding does no
more than trim it. -/
theorem encode_of_done {keep : Text → Bool} {t : Text}
    (hblanks : ∀ c ∈ t, isBlank c = true → isBreak c = true)
    (hdone : ∀ word ∈ wordsOf t, r.Done keep word) : encode r keep t = trim t := by
  rw [encode_eq_trim, spaceBlanks_eq_self hblanks, encodeLines]
  have hline : ∀ line ∈ lines t,
      unwords ((words line).map (encodeWord r.substitutions keep)) = line := by
    intro line hline
    have hwords : (words line).map (encodeWord r.substitutions keep) = words line :=
      (List.map_congr_left fun word hword =>
        (hdone word (List.mem_flatMap.2 ⟨line, hline, hword⟩)).encodeWord_eq).trans (List.map_id _)
    rw [hwords, unwords_words]
  rw [(List.map_congr_left hline).trans (List.map_id' _), unlines_lines]

/-- **Nothing is left to encode.** If the glyphs are foreign to markers, no glyph stands in a word
of an encoded message, unless the word is kept, and encoding the message once more leaves it as it
is. -/
theorem encode_leaves_no_glyph (hforeign : ∀ g ∈ r.glyphs, Marker.Foreign g) (keep : Text → Bool)
    (t : Text) :
    (∀ line ∈ lines (encode r keep t), ∀ word ∈ words line, keep word = false →
        ∀ code g, r.IsGlyphFor code g → ¬ g <:+: word)
      ∧ encode r keep (encode r keep t) = encode r keep t := by
  have hdone : ∀ word ∈ wordsOf (encode r keep t), r.Done keep word := by
    intro word hword
    obtain ⟨source, rfl⟩ := exists_of_mem_wordsOf_encode hforeign hword
    exact done_encodeWord hforeign keep source
  constructor
  · intro line hline word hword hkeep
    refine (hdone word (List.mem_flatMap.2 ⟨line, hline, hword⟩)).resolve_left ?_
    simp [hkeep]
  · have hblanks : ∀ c ∈ encode r keep t, isBlank c = true → isBreak c = true := by
      intro c hc hblank
      have hmem := (encodes_encode hforeign keep t).mem_of_isBlank hc hblank
      exact isBreak_of_mem_spaceBlanks (mem_of_mem_trim hmem) hblank
    rw [encode_of_done hblanks hdone, encode_eq_trim, trim_trim]

/-- Words with delimiters are kept, so on the second run the words that hold markers are. -/
theorem encode_leaves_no_glyph_brackets :
    let keep : Text → Bool := fun word => Marker.delimiter ∈ word
    encode .brackets keep " 1)) $)\t)1) (1\n ".toList = "$2$$11$ $) $11$$2$ (1".toList
      ∧ (∀ line ∈ lines (encode .brackets keep " 1)) $)\t)1) (1\n ".toList),
          ∀ word ∈ words line, keep word = false →
            ∀ code g, Registry.brackets.IsGlyphFor code g → ¬ g <:+: word)
      ∧ encode .brackets keep (encode .brackets keep " 1)) $)\t)1) (1\n ".toList)
        = encode .brackets keep " 1)) $)\t)1) (1\n ".toList := by
  intro keep
  constructor
  · rw [encode, substitutions_brackets]
    decide
  · exact encode_leaves_no_glyph (by decide) keep " 1)) $)\t)1) (1\n ".toList

end ChatText
