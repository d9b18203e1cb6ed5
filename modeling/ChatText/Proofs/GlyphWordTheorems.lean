import ChatText.Proofs.FixpointTheorems
import ChatText.Proofs.GlyphIndexTheorems
import ChatText.Proofs.WordTheorems

/-!
# Glyphs as words

A glyph may hold shorter glyphs, and delimiters and digits beside other symbols. Where it stands as
a word of its own, it is encoded by its own marker all the same.

* Of the passes over the word, those before the pass of the glyph find nothing, for their glyphs are
  longer or as long and different (`exists_substitutions_split`);
* the pass of the glyph turns the whole word into the marker (`replaceAll_self`);
* the passes behind it find nothing in the marker, which holds only delimiters and digits
  (`not_infix_write`).

Words that hold no glyph stay as they are, and words that are joined by spaces are encoded one by
one (`encode_unwords`).
-/

namespace ChatText

variable {r : Registry} {g : Text} {code : UInt32}

/-! ## A glyph that is the whole word -/

theorem replaceAll_self {replacement : Text} (hg : g ≠ []) :
    replaceAll g replacement g = replacement := by
  have hall : replaceAll g replacement (g ++ []) = replacement ++ replaceAll g replacement [] :=
    replaceAll_append hg []
  rwa [List.append_nil, replaceAll_of_not_infix fun h => hg (List.infix_nil.1 h),
    List.append_nil] at hall

/-- A text with a symbol that markers are not made of stands in no marker. -/
theorem not_infix_write (hg : ∃ c ∈ g, ¬ Marker.IsSymbol c) (code : UInt32) :
    ¬ g <:+: Marker.write code := by
  obtain ⟨c, hc, hnot⟩ := hg
  intro hin
  exact hnot (Marker.isSymbol_of_mem_enclose (Marker.isDigits_decimal code.toNat) (hin.subset hc))

namespace Registry

/-- The glyphs that are substituted are glyphs in their order. -/
theorem map_fst_substitutions_sublist (r : Registry) :
    (r.substitutions.map Prod.fst).Sublist r.glyphsLongestFirst := by
  unfold substitutions
  induction r.glyphsLongestFirst with
  | nil => exact List.Sublist.slnil
  | cons g glyphs ih =>
    rw [List.filterMap_cons]
    cases r.codeFor? g with
    | none => exact ih.cons g
    | some code => exact ih.cons_cons g

/-- A glyph is substituted behind glyphs that do not stand in it. -/
theorem exists_substitutions_split (hnodup : r.glyphsLongestFirst.Nodup)
    (hglyph : r.IsGlyphFor code g) :
    ∃ done todo, r.substitutions = done ++ (g, code) :: todo ∧ ∀ s ∈ done, ¬ s.1 <:+: g := by
  obtain ⟨done, todo, hsubs⟩ := List.append_of_mem (mem_substitutions_iff.2 hglyph)
  refine ⟨done, todo, hsubs, fun s hs hin => ?_⟩
  have hsublist := r.map_fst_substitutions_sublist
  have hlonger := r.pairwise_glyphsLongestFirst.sublist hsublist
  have hne := hnodup.sublist hsublist
  rw [hsubs, List.map_append, List.map_cons] at hlonger hne
  have hmem : s.1 ∈ done.map Prod.fst := List.mem_map_of_mem hs
  -- the other glyph is not shorter, so it would be all of this one
  have hle := (List.pairwise_append.1 hlonger).2.2 s.1 hmem g List.mem_cons_self
  exact (List.nodup_append.1 hne).2.2 s.1 hmem g List.mem_cons_self
    (hin.sublist.eq_of_length_le hle)

/-- All passes together turn a glyph into the marker of its code. -/
theorem substituteGlyphs_glyph (hsolid : ∀ g ∈ r.glyphs, ∃ c ∈ g, ¬ Marker.IsSymbol c)
    (hnodup : r.glyphsLongestFirst.Nodup) (hglyph : r.IsGlyphFor code g) :
    substituteGlyphs r.substitutions g = Marker.write code := by
  obtain ⟨done, todo, hsubs, hdone⟩ := exists_substitutions_split hnodup hglyph
  obtain ⟨c, hc, -⟩ := hsolid g hglyph.1
  have hpassed : substituteGlyphs done g = g := substituteGlyphs_of_not_infix hdone
  have htodo : ∀ s ∈ todo, ¬ s.1 <:+: Marker.write code := by
    intro s hs
    have hmem : s ∈ r.substitutions := by
      rw [hsubs]
      exact List.mem_append_right _ (List.mem_cons_of_mem _ hs)
    exact not_infix_write (hsolid s.1 (mem_substitutions_iff.1 hmem).1) code
  calc substituteGlyphs r.substitutions g
      = substituteGlyphs todo
          (replaceAll g (Marker.write code) (substituteGlyphs done g)) := by
        rw [hsubs, substituteGlyphs, List.foldl_append, List.foldl_cons]
        rfl
    _ = substituteGlyphs todo (Marker.write code) := by
        rw [hpassed, replaceAll_self (List.ne_nil_of_mem hc)]
    _ = Marker.write code := substituteGlyphs_of_not_infix htodo

end Registry

/-! ## Words joined by spaces -/

/-- Words joined by spaces are encoded one by one, if words come of them. -/
theorem encode_unwords (keep : Text → Bool) {ws : List Text} (hws : ∀ w ∈ ws, IsWord w)
    (hencoded : ∀ w ∈ ws, IsWord (encodeWord r.substitutions keep w)) :
    encode r keep (unwords ws) = unwords (ws.map (encodeWord r.substitutions keep)) := by
  by_cases hne : ws = []
  · subst hne
    rfl
  · have hspaces : spaceBlanks (unwords ws) = unwords ws := by
      refine spaceBlanks_eq_self fun c hc hblank => ?_
      rw [eq_space_of_mem_unwords hws hc hblank]
      rfl
    rw [encode_eq_trim, hspaces, encodeLines, lines_unwords hws, List.map_singleton,
      words_unwords hws hne, unlines, List.intercalate_singleton,
      trim_unwords (by simpa using hencoded)]

/-- What is stored of a word that is a glyph or holds none: the marker of the code that the glyph
stands for, or the word as it is. -/
def Registry.StoresWord (r : Registry) (word stored : Text) : Prop :=
  (∃ code, r.IsGlyphFor code word ∧ stored = Marker.write code)
    ∨ word ∉ r.glyphs ∧ stored = word

namespace Registry

/-- A word that is not kept and that is a glyph or holds none is encoded by what is stored of it,
which is a word again. -/
theorem storesWord_encodeWord (hindexed : r.Indexed) (hnodup : r.glyphsLongestFirst.Nodup)
    (hsolid : ∀ g ∈ r.glyphs, ∃ c ∈ g, ¬ Marker.IsSymbol c) (keep : Text → Bool) {w : Text}
    (hkeep : keep w = false) (hword : IsWord w)
    (hglyph : w ∈ r.glyphs ∨ ∀ g ∈ r.glyphs, ¬ g <:+: w) :
    r.StoresWord w (encodeWord r.substitutions keep w)
      ∧ IsWord (encodeWord r.substitutions keep w) := by
  have hencode : encodeWord r.substitutions keep w = substituteGlyphs r.substitutions w := by
    rw [encodeWord, if_neg (by simp [hword.1, hkeep])]
  rw [hencode]
  rcases hglyph with hmem | hnone
  · obtain ⟨code, hcode⟩ := Option.isSome_iff_exists.1 ((hindexed w).1 hmem)
    rw [substituteGlyphs_glyph hsolid hnodup ⟨hmem, hcode⟩]
    refine ⟨Or.inl ⟨code, ⟨hmem, hcode⟩, rfl⟩, List.cons_ne_nil _ _, fun c hc => ?_⟩
    exact (Marker.isSymbol_of_mem_enclose (Marker.isDigits_decimal code.toNat) hc).not_blank
  · have hsame : substituteGlyphs r.substitutions w = w :=
      substituteGlyphs_of_not_infix fun s hs => hnone s.1 (mem_substitutions_iff.1 hs).1
    rw [hsame]
    exact ⟨Or.inr ⟨fun hmem => hnone w hmem List.infix_rfl, rfl⟩, hword⟩

/-- **Every glyph is encoded as itself among any words.** If each glyph that the steps have
registered holds a symbol that is neither a delimiter nor a digit, and words are joined by spaces
that are glyphs or hold none, then the markers of the glyphs' own codes are stored, joined by
spaces, with all other words as they are. -/
theorem encode_glyphs_among_words {steps : List Step}
    (hsolid : ∀ g ∈ (ofSteps steps).glyphs, ∃ c ∈ g, ¬ Marker.IsSymbol c) {ws : List Text}
    (hws : ∀ w ∈ ws, IsWord w
      ∧ (w ∈ (ofSteps steps).glyphs ∨ ∀ g ∈ (ofSteps steps).glyphs, ¬ g <:+: w)) :
    ∃ es, List.Forall₂ (ofSteps steps).StoresWord ws es
      ∧ encode (ofSteps steps) (fun _ => false) (unwords ws) = unwords es := by
  have hstores := fun w hw => storesWord_encodeWord (indexed_ofSteps steps)
    (nodup_glyphsLongestFirst steps) hsolid (fun _ => false) rfl (hws w hw).1 (hws w hw).2
  refine ⟨ws.map (encodeWord (ofSteps steps).substitutions fun _ => false), ?_,
    encode_unwords _ (fun w hw => (hws w hw).1) fun w hw => (hstores w hw).2⟩
  rw [List.forall₂_map_right_iff, List.forall₂_same]
  exact fun w hw => (hstores w hw).1

/-- Glyphs with a digit and with a delimiter in them, one of which comes to another code and is a
part of two others, and a marker that was typed. -/
theorem encode_glyphs_among_words_nested :
    let steps : List Step := [.icon 11 20 20 1, .glyph ")".toList, .glyph "1)".toList,
      .register "$1)".toList 7, .register "1)".toList 1]
    let ws := ["1)".toList, "$11$".toList, "$1)".toList, "(1".toList, ")".toList]
    encode (ofSteps steps) (fun _ => false) (unwords ws) = "$1$ $11$ $7$ (1 $11$".toList
      ∧ ∃ es, List.Forall₂ (ofSteps steps).StoresWord ws es
          ∧ encode (ofSteps steps) (fun _ => false) (unwords ws) = unwords es := by
  intro steps ws
  have hsubs : (ofSteps steps).substitutions
      = [("$1)".toList, 7), ("1)".toList, 1), (")".toList, 11)] := by
    cbv
  have hglyphs : (ofSteps steps).glyphs = [")".toList, "1)".toList, "$1)".toList] := by
    decide
  have hbracket : ∀ g ∈ (ofSteps steps).glyphs, ')' ∈ g := by
    rw [hglyphs]
    decide
  have hword : ∀ w ∈ ws, IsWord w := by
    decide
  have hglyph : ∀ w ∈ ws,
      w ∈ (ofSteps steps).glyphs ∨ ∀ g ∈ (ofSteps steps).glyphs, ¬ g <:+: w := by
    rw [hglyphs]
    decide
  have hencode : encode (ofSteps steps) (fun _ => false) (unwords ws)
      = "$1$ $11$ $7$ (1 $11$".toList := by
    rw [encode, hsubs]
    decide
  exact ⟨hencode, encode_glyphs_among_words (fun g hg => ⟨')', hbracket g hg, by decide⟩)
    fun w hw => ⟨hword w hw, hglyph w hw⟩⟩

end Registry
end ChatText
