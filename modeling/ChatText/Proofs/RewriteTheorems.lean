import ChatText.Proofs.EncodeTheorems
import ChatText.Proofs.RegistryTheorems

/-!
# Encoding as rewriting

What becomes of a word can be said without passes over it: as long as a glyph stands in what was
typed of the word, the leftmost occurrence of the longest one becomes a marker, and what is a
marker is not looked at again. `Registry.Rewrites` is one such step.

* A pass that marks one glyph is a run of steps, after which the glyph stands nowhere
  (`rewrites_markGlyph`), provided that no glyph that goes before it is left in the word;
* so the passes for all glyphs in their order are a run to the end (`rewritesTo_markGlyphs`);
* a step leaves no choice, so there is no other end (`Registry.RewritesTo.unique`).

A glyph that stands for no code is not rewritten. Where a registry is put together by steps there
is none (`Registry.exists_isGlyphFor_ofSteps`).
-/

namespace ChatText

variable {r : Registry} {g g' : Text} {code code' : UInt32} {m m' : List (Piece UInt32)}

/-! ## Steps -/

/-- The glyph stands in what was typed of a word, with no marker inside. -/
def TypedIn (g : Text) (m : List (Piece UInt32)) : Prop := symbols g <:+: m

/-- In front of the `n`-th piece of a word the glyph does not start. -/
def TypedOnlyFrom (g : Text) (n : Nat) (m : List (Piece UInt32)) : Prop :=
  ∀ u v, m = u ++ symbols g ++ v → n ≤ u.length

namespace Registry

/-- The glyph is the longer one of two or, if they have one length, was registered first. -/
def Precedes (r : Registry) (g g' : Text) : Prop :=
  g'.length < g.length ∨ g'.length = g.length ∧ r.glyphs.idxOf g ≤ r.glyphs.idxOf g'

/-- Of the glyphs that stand in a word, `g` goes before all others. -/
def Leads (r : Registry) (g : Text) (m : List (Piece UInt32)) : Prop :=
  ∀ code' g', r.IsGlyphFor code' g' → TypedIn g' m → r.Precedes g g'

/-- One step: of the glyphs in the word, the leftmost occurrence of the one that goes before all
others becomes the marker of its code. -/
def Rewrites (r : Registry) (m m' : List (Piece UInt32)) : Prop :=
  ∃ u g code v, r.IsGlyphFor code g ∧ r.Leads g m
    ∧ m = u ++ symbols g ++ v ∧ TypedOnlyFrom g u.length m ∧ m' = u ++ .item code g :: v

/-- A run of steps from a word as it was typed, after which no glyph stands in it any more. -/
def RewritesTo (r : Registry) (word : Text) (m : List (Piece UInt32)) : Prop :=
  Relation.ReflTransGen r.Rewrites (symbols word) m
    ∧ ∀ code g, r.IsGlyphFor code g → ¬ TypedIn g m

end Registry

/-! ## The order of the glyphs -/

/-- Glyphs that are not substituted before `g` do not go before it. -/
theorem Registry.precedes_of_glyphsLongestFirst {before after : List Text}
    (h : r.glyphsLongestFirst = before ++ g :: after) (hg' : g' ∈ r.glyphs)
    (hbefore : g' ∉ before) : r.Precedes g g' := by
  have hsorted := r.pairwise_glyphsLongestFirst
  have hmem : g' ∈ r.glyphsLongestFirst := List.mem_mergeSort.2 hg'
  rw [h, List.pairwise_append] at hsorted
  rw [h, List.mem_append, List.mem_cons] at hmem
  have hle : g'.length ≤ g.length := by
    rcases hmem with hmem | rfl | hmem
    · exact absurd hmem hbefore
    · exact Nat.le_refl _
    · exact (List.pairwise_cons.1 hsorted.2.1).1 g' hmem
  rcases Nat.lt_or_eq_of_le hle with hlt | hlen
  · exact Or.inl hlt
  · exact Or.inr ⟨hlen, idxOf_le_of_glyphsLongestFirst h hlen hbefore⟩

/-- If no glyph is left that is substituted before `g`, then `g` goes before all that are. -/
theorem Registry.leads_of_substitutions {done todo : List (Text × UInt32)}
    (h : r.substitutions = done ++ (g, code) :: todo)
    (hdone : ∀ s ∈ done, ¬ TypedIn s.1 m) : r.Leads g m := by
  intro code' g' hglyph htyped
  unfold substitutions at h
  obtain ⟨l₁, l₂, hsorted, rfl, hl₂⟩ := List.filterMap_eq_append_iff.1 h
  obtain ⟨l₃, x, l₄, rfl, hl₃, hx, -⟩ := List.filterMap_eq_cons_iff.1 hl₂
  obtain ⟨code'', -, hx⟩ := Option.map_eq_some_iff.1 hx
  obtain ⟨rfl, rfl⟩ : x = g ∧ code'' = code := by simpa using hx
  rw [← List.append_assoc] at hsorted
  refine precedes_of_glyphsLongestFirst hsorted hglyph.1 fun hbefore => ?_
  rcases List.mem_append.1 hbefore with hmem | hmem
  · refine hdone (g', code') (List.mem_filterMap.2 ⟨g', hmem, ?_⟩) htyped
    rw [hglyph.2]
    rfl
  · have hnone := hl₃ g' hmem
    rw [hglyph.2] at hnone
    cases hnone

/-! ## Occurrences beside a marker -/

/-- A text that stands beside a marker is in front of it or behind it. -/
theorem occurrence_cases {u u' v v' : List (Piece UInt32)} {s : Text}
    (h : u' ++ symbols g ++ v' = u ++ .item code s :: v) :
    (∃ w, u = u' ++ symbols g ++ w)
      ∨ ∃ w, u' = u ++ .item code s :: w ∧ v = w ++ symbols g ++ v' := by
  have hnot : Piece.item code s ∉ symbols g := by simp [symbols]
  rcases List.append_eq_append_iff.1 h with ⟨w, rfl, -⟩ | ⟨w, hw, hv⟩
  · exact Or.inl ⟨w, rfl⟩
  · rcases List.cons_eq_append_iff.1 hv with ⟨rfl, -⟩ | ⟨w', rfl, rfl⟩
    · exact Or.inl ⟨[], by rw [hw, List.append_nil, List.append_nil]⟩
    · -- the marker is not inside the text, so it stands in front of it
      rcases List.append_eq_append_iff.1 hw with ⟨x, rfl, hx⟩ | ⟨x, rfl, hx⟩
      · rw [hx] at hnot
        exact absurd (List.mem_append_right _ List.mem_cons_self) hnot
      · rcases List.cons_eq_append_iff.1 hx with ⟨rfl, hx⟩ | ⟨x', rfl, rfl⟩
        · rw [← hx.trans (List.nil_append _)] at hnot
          exact absurd List.mem_cons_self hnot
        · exact Or.inr ⟨x', rfl, rfl⟩

/-- What stands in a word beside a marker stood there before the marker was made. -/
theorem TypedIn.of_item {u v w : List (Piece UInt32)} {s : Text}
    (h : TypedIn g (u ++ .item code s :: v)) : TypedIn g (u ++ w ++ v) := by
  obtain ⟨u', v', h⟩ := h
  rcases occurrence_cases h with ⟨x, rfl⟩ | ⟨x, rfl, rfl⟩
  · exact ⟨u', x ++ w ++ v, by simp⟩
  · exact ⟨u ++ w ++ x, v', by simp⟩

/-- Steps leave nothing in a word that did not stand there before. -/
theorem TypedIn.of_rewrites (h : TypedIn g' m') (hrun : Relation.ReflTransGen r.Rewrites m m') :
    TypedIn g' m := by
  induction hrun with
  | refl => exact h
  | tail _ hstep ih =>
    obtain ⟨u, g, code, v, -, -, rfl, -, rfl⟩ := hstep
    exact ih h.of_item

/-! ## A pass is a run of steps -/

/-- What goes before all glyphs in a word still does so beside a marker. -/
theorem Registry.Leads.of_item {u v w : List (Piece UInt32)} {s : Text}
    (h : r.Leads g (u ++ w ++ v)) : r.Leads g (u ++ .item code s :: v) :=
  fun code' g' hglyph htyped => h code' g' hglyph htyped.of_item

/-- Behind the marker that its occurrence became, the glyph is looked for further. -/
theorem TypedOnlyFrom.item {u v : List (Piece UInt32)} (hg : g ≠ [])
    (h : TypedOnlyFrom g u.length (u ++ symbols g ++ v)) :
    TypedOnlyFrom g (u.length + 1) (u ++ .item code g :: v) := by
  intro u' v' hm
  rcases occurrence_cases hm.symm with ⟨w, hu⟩ | ⟨w, hu, -⟩
  · -- in front of the marker there is none
    have hle : u.length ≤ u'.length := h u' (w ++ symbols g ++ v) (by rw [hu]; simp)
    have hpos : 0 < g.length := List.length_pos_iff.2 hg
    have hlen := congrArg List.length hu
    simp only [List.length_append, length_symbols] at hlen
    omega
  · rw [hu, List.length_append, List.length_cons]
    omega

/-- Where the glyph does not start it is looked for further. -/
theorem TypedOnlyFrom.pass {u : List (Piece UInt32)} {p : Piece UInt32}
    (h : TypedOnlyFrom g u.length (u ++ p :: m)) (hp : ¬ symbols g <+: p :: m) :
    TypedOnlyFrom g (u.length + 1) (u ++ p :: m) := by
  intro u' v' hm
  have hle := h u' v' hm
  have hne : u.length ≠ u'.length := by
    intro hlen
    rw [List.append_assoc] at hm
    have hstart := (List.append_inj hm hlen).2
    exact hp ⟨v', hstart.symm⟩
  omega

/-- A glyph that starts nowhere in a word does not stand in it. -/
theorem TypedOnlyFrom.not_typedIn (hg : g ≠ []) (h : TypedOnlyFrom g m.length m) :
    ¬ TypedIn g m := by
  rintro ⟨u, v, hm⟩
  have hle := h u v hm.symm
  have hpos : 0 < g.length := List.length_pos_iff.2 hg
  have hlen := congrArg List.length hm
  simp only [List.length_append, length_symbols] at hlen
  omega

/-- Marking a glyph behind a part of the word in which it does not start. -/
theorem rewrites_append_markGlyph (hglyph : r.IsGlyphFor code g) (hg : g ≠ [])
    (m : List (Piece UInt32)) {u : List (Piece UInt32)} (hleads : r.Leads g (u ++ m))
    (honly : TypedOnlyFrom g u.length (u ++ m)) :
    Relation.ReflTransGen r.Rewrites (u ++ m) (u ++ markGlyph g code m)
      ∧ ¬ TypedIn g (u ++ markGlyph g code m) := by
  have hlength : ∀ (l : List (Piece UInt32)) q, (l ++ [q]).length = l.length + 1 := by simp
  fun_induction markGlyph g code m generalizing u with
  | case1 =>
    rw [List.append_nil] at honly ⊢
    exact ⟨.refl, honly.not_typedIn hg⟩
  | case2 p m hfound ih =>
    have hm : u ++ p :: m = u ++ symbols g ++ m.drop (g.length - 1) := by
      rw [eq_append_drop_of_isPrefix hg hfound.2, List.append_assoc]
    generalize m.drop (g.length - 1) = rest at hm ih ⊢
    rw [hm] at hleads honly ⊢
    -- the marker takes the place of the glyph, and the pass goes on behind it
    have hstep : r.Rewrites (u ++ symbols g ++ rest) (u ++ .item code g :: rest) :=
      ⟨u, g, code, rest, hglyph, hleads, rfl, honly, rfl⟩
    have hleads' : r.Leads g (u ++ .item code g :: rest) := hleads.of_item
    have honly' : TypedOnlyFrom g (u.length + 1) (u ++ .item code g :: rest) := honly.item hg
    rw [List.append_cons] at hstep hleads' honly'
    rw [← hlength u (.item code g)] at honly'
    rw [List.append_cons u _ (markGlyph g code rest)]
    obtain ⟨hrun, hnone⟩ := ih hleads' honly'
    exact ⟨hrun.head hstep, hnone⟩
  | case3 p m hfound ih =>
    have honly' : TypedOnlyFrom g (u.length + 1) (u ++ p :: m) :=
      honly.pass fun hstart => hfound ⟨hg, hstart⟩
    rw [List.append_cons] at hleads honly' ⊢
    rw [← hlength u p] at honly'
    rw [List.append_cons u _ (markGlyph g code m)]
    exact ih hleads honly'

/-- A pass for one glyph, over a word in which no glyph is left that goes before it. -/
theorem rewrites_markGlyph (hglyph : r.IsGlyphFor code g) (hg : g ≠ []) (hleads : r.Leads g m) :
    Relation.ReflTransGen r.Rewrites m (markGlyph g code m) ∧ ¬ TypedIn g (markGlyph g code m) :=
  rewrites_append_markGlyph hglyph hg m (u := []) hleads fun u _ _ => Nat.zero_le u.length

/-- The passes that are left are a run of steps, after which no glyph stands in the word. -/
theorem rewrites_markGlyphs (hnonempty : ∀ g ∈ r.glyphs, g ≠ [])
    {done todo : List (Text × UInt32)} (h : r.substitutions = done ++ todo)
    (hdone : ∀ s ∈ done, ¬ TypedIn s.1 m) :
    Relation.ReflTransGen r.Rewrites m (markGlyphs todo m)
      ∧ ∀ s ∈ r.substitutions, ¬ TypedIn s.1 (markGlyphs todo m) := by
  induction todo generalizing done m with
  | nil =>
    rw [List.append_nil] at h
    rw [h]
    exact ⟨.refl, hdone⟩
  | cons s todo ih =>
    obtain ⟨g, code⟩ := s
    have hglyph : r.IsGlyphFor code g := by
      refine mem_substitutions_iff.1 ?_
      rw [h]
      exact List.mem_append_right done List.mem_cons_self
    obtain ⟨hrun, hnone⟩ := rewrites_markGlyph hglyph (hnonempty g hglyph.1)
      (Registry.leads_of_substitutions h hdone)
    have hdone' : ∀ s ∈ done ++ [(g, code)], ¬ TypedIn s.1 (markGlyph g code m) := by
      intro s hs
      rcases List.mem_append.1 hs with hs | hs
      · exact fun htyped => hdone s hs (htyped.of_rewrites hrun)
      · rw [List.mem_singleton.1 hs]
        exact hnone
    rw [markGlyphs, List.foldl_cons, ← markGlyphs]
    obtain ⟨hrun', hnone'⟩ := ih (by rw [h]; simp) hdone'
    exact ⟨hrun.trans hrun', hnone'⟩

/-- The passes for all glyphs are a run to the end. -/
theorem rewritesTo_markGlyphs (hnonempty : ∀ g ∈ r.glyphs, g ≠ []) (word : Text) :
    r.RewritesTo word (markGlyphs r.substitutions (symbols word)) := by
  have hdone : ∀ s ∈ ([] : List (Text × UInt32)), ¬ TypedIn s.1 (symbols word) := by simp
  obtain ⟨hrun, hnone⟩ := rewrites_markGlyphs hnonempty (List.nil_append _).symm hdone
  exact ⟨hrun, fun code g hglyph => hnone (g, code) (mem_substitutions_iff.2 hglyph)⟩

/-! ## There is no other end -/

/-- Of two glyphs only one can go before the other. -/
theorem Registry.Precedes.antisymm (h : r.Precedes g g') (h' : r.Precedes g' g)
    (hg : g ∈ r.glyphs) : g = g' := by
  unfold Precedes at h h'
  have hidx : r.glyphs.idxOf g = r.glyphs.idxOf g' := by omega
  exact (List.idxOf_inj hg).1 hidx

/-- What a step does is settled. -/
theorem Registry.rightUnique_rewrites (r : Registry) : Relator.RightUnique r.Rewrites := by
  intro m m₁ m₂ h₁ h₂
  obtain ⟨u, g, code, v, hglyph, hleads, hm, hleft, rfl⟩ := h₁
  obtain ⟨u', g', code', v', hglyph', hleads', hm', hleft', rfl⟩ := h₂
  obtain rfl : g = g' :=
    (hleads code' g' hglyph' ⟨u', v', hm'.symm⟩).antisymm
      (hleads' code g hglyph ⟨u, v, hm.symm⟩) hglyph.1
  obtain rfl : code = code' := Option.some.inj (hglyph.2.symm.trans hglyph'.2)
  have hlen : u.length = u'.length := Nat.le_antisymm (hleft u' v' hm') (hleft' u v hm)
  have hsplit : u ++ (symbols g ++ v) = u' ++ (symbols g ++ v') := by
    rw [← List.append_assoc, ← List.append_assoc, ← hm, ← hm']
  obtain ⟨rfl, hrest⟩ := List.append_inj hsplit hlen
  rw [List.append_cancel_left hrest]

/-- A word that was rewritten to the end takes no step. -/
theorem eq_of_rewrites_of_done (hrun : Relation.ReflTransGen r.Rewrites m m')
    (hdone : ∀ code g, r.IsGlyphFor code g → ¬ TypedIn g m) : m = m' := by
  rcases hrun.cases_head with heq | ⟨m₁, hstep, -⟩
  · exact heq
  · obtain ⟨u, g, code, v, hglyph, -, rfl, -, -⟩ := hstep
    exact absurd ⟨u, v, rfl⟩ (hdone code g hglyph)

/-- However a word is rewritten, the end is the same. -/
theorem Registry.RewritesTo.unique {word : Text} (h : r.RewritesTo word m)
    (h' : r.RewritesTo word m') : m = m' := by
  rcases Relation.ReflTransGen.total_of_right_unique r.rightUnique_rewrites h.1 h'.1
    with hrun | hrun
  · exact eq_of_rewrites_of_done hrun h.2
  · exact (eq_of_rewrites_of_done hrun h'.2).symm

/-! ## Encoding -/

/-- The words of a message as they are stored: what is kept as it is, the rest as the end of its
rewriting. -/
theorem encodeWord_eq_stored (hforeign : ∀ g ∈ r.glyphs, Marker.Foreign g) (keep : Text → Bool)
    (word : Text) : encodeWord r.substitutions keep word
      = if keep word then word else stored (markGlyphs r.substitutions (symbols word)) := by
  have hsubs : ∀ s ∈ r.substitutions, Marker.Foreign s.1 := fun s hs =>
    hforeign s.1 (mem_substitutions_iff.1 hs).1
  unfold encodeWord
  by_cases hkeep : keep word = true
  · rw [if_pos (Or.inr hkeep), if_pos hkeep]
  · rw [if_neg hkeep]
    by_cases hempty : word = []
    · rw [if_pos (Or.inl hempty), hempty, symbols_nil, markGlyphs_nil, stored_nil]
    · rw [if_neg (by simp [hempty, hkeep]), stored_markGlyphs hsubs, stored_symbols]

/-- **Longest glyph first.** If the glyphs are foreign to markers, a message is stored with each
word that is not kept as the one end of its rewriting, its blanks as spaces, and trimmed. -/
theorem encode_eq_rewritten (hforeign : ∀ g ∈ r.glyphs, Marker.Foreign g) (keep : Text → Bool)
    (t : Text) :
    ∃ R : Text → List (Piece UInt32), (∀ word m, r.RewritesTo word m ↔ m = R word)
      ∧ encode r keep t = trim (unlines ((lines (spaceBlanks t)).map fun line =>
          unwords ((words line).map fun word =>
            if keep word then word else stored (R word)))) := by
  have hnonempty : ∀ g ∈ r.glyphs, g ≠ [] := fun g hg => (hforeign g hg).ne_nil
  refine ⟨fun word => markGlyphs r.substitutions (symbols word), fun word m => ⟨?_, ?_⟩, ?_⟩
  · exact fun h => h.unique (rewritesTo_markGlyphs hnonempty word)
  · rintro rfl
    exact rewritesTo_markGlyphs hnonempty word
  · unfold encode
    simp only [funext (encodeWord_eq_stored hforeign keep)]

/-- The bracket behind the digit is a part of the longer glyph, and a typed marker stays text. -/
theorem encode_eq_rewritten_brackets :
    encode .brackets Link.isWeb "1)) $2$) www.)".toList = "$2$$11$ $2$$11$ www.)".toList
      ∧ ∃ R : Text → List (Piece UInt32),
          (∀ word m, Registry.brackets.RewritesTo word m ↔ m = R word)
            ∧ encode .brackets Link.isWeb "1)) $2$) www.)".toList
              = trim (unlines ((lines (spaceBlanks "1)) $2$) www.)".toList)).map fun line =>
                unwords ((words line).map fun word =>
                  if Link.isWeb word then word else stored (R word)))) := by
  constructor
  · rw [encode, substitutions_brackets]
    decide
  · exact encode_eq_rewritten (by decide) Link.isWeb "1)) $2$) www.)".toList

end ChatText
