import ChatText.Proofs.EncodeTheorems
import ChatText.Registry.Draft

/-!
# What a registry knows of its glyphs

What one step does to the codes of glyphs is said by `Registry.codeFor?_registerGlyph`; the other
steps leave glyphs alone. So glyphs and codes stay in agreement over any list of steps: exactly
the registered glyphs stand for a code (`Registry.indexed_ofSteps`).

The glyphs are substituted longer ones first (`Registry.pairwise_glyphsLongestFirst`), and those of
one length in the order of their registration (`Registry.idxOf_le_of_glyphsLongestFirst`).
-/

namespace ChatText

namespace Registry

variable {r : Registry} {g glyph : Text} {code : UInt32}

/-! ## Registering one glyph -/

theorem registerGlyph_nil (r : Registry) (code : UInt32) : r.registerGlyph [] code = r := rfl

/-- A glyph is new, or stands for the code already, or moves to it from another. -/
theorem registerGlyph_cases (r : Registry) (h : glyph ≠ []) (code : UInt32) :
    (r.codeFor? glyph = none ∧ r.registerGlyph glyph code
        = { r with glyphs := r.glyphs ++ [glyph], owners := r.owners ++ [(glyph, code)] })
      ∨ (r.codeFor? glyph = some code ∧ r.registerGlyph glyph code = r)
      ∨ ∃ owner, owner ≠ code ∧ r.codeFor? glyph = some owner ∧ r.registerGlyph glyph code
        = { r with owners := r.owners.filter (·.1 != glyph) ++ [(glyph, code)] } := by
  unfold registerGlyph
  rw [if_neg h]
  cases r.codeFor? glyph with
  | none => exact Or.inl ⟨rfl, rfl⟩
  | some owner =>
    by_cases hsame : owner = code
    · exact Or.inr (Or.inl ⟨congrArg some hsame, if_pos hsame⟩)
    · exact Or.inr (Or.inr ⟨owner, hsame, rfl, if_neg hsame⟩)

theorem lookup_cons_eq_ite {α : Type} (p : Text × α) (entries : List (Text × α)) (g : Text) :
    (p :: entries).lookup g = if g = p.1 then some p.2 else entries.lookup g := by
  by_cases hg : g = p.1
  · rw [if_pos hg, hg, List.lookup_cons_self]
  · rw [if_neg hg, List.lookup_cons, beq_false_of_ne hg]

/-- A new entry is looked up behind all others. -/
theorem codeFor?_append_owner (r : Registry) (owners : List (Text × UInt32)) (g glyph : Text)
    (code : UInt32) : codeFor? { r with owners := owners ++ [(glyph, code)] } g
      = (owners.lookup g).or (if g = glyph then some code else none) := by
  rw [codeFor?, List.lookup_append, lookup_cons_eq_ite, List.lookup_nil]

/-- Dropping the entries of one key leaves what is looked up for the others. -/
theorem lookup_filter_bne (owners : List (Text × UInt32)) (g glyph : Text) :
    (owners.filter (·.1 != glyph)).lookup g = if g = glyph then none else owners.lookup g := by
  induction owners with
  | nil => simp
  | cons p owners ih =>
    rw [lookup_cons_eq_ite]
    by_cases hp : p.1 = glyph
    · rw [List.filter_cons_of_neg (by simp [hp]), ih, hp]
      by_cases hg : g = glyph
      · simp [hg]
      · simp [hg]
    · rw [List.filter_cons_of_pos (by simpa using hp), lookup_cons_eq_ite, ih]
      by_cases hg : g = glyph
      · simp [hg, Ne.symm hp]
      · simp [hg]

/-- After its registration a glyph stands for the code, and the others for what they did. -/
theorem codeFor?_registerGlyph (r : Registry) (g : Text) (h : glyph ≠ []) (code : UInt32) :
    (r.registerGlyph glyph code).codeFor? g = if g = glyph then some code else r.codeFor? g := by
  rcases registerGlyph_cases r h code with ⟨hnone, hr⟩ | ⟨hsame, hr⟩ | ⟨owner, -, -, hr⟩
  · rw [hr, codeFor?_append_owner { r with glyphs := r.glyphs ++ [glyph] }, ← codeFor?]
    by_cases hg : g = glyph
    · simp [hg, hnone]
    · simp [hg]
  · rw [hr]
    by_cases hg : g = glyph
    · rw [if_pos hg, hg, hsame]
    · rw [if_neg hg]
  · rw [hr, codeFor?_append_owner, lookup_filter_bne, ← codeFor?]
    by_cases hg : g = glyph
    · simp [hg]
    · simp [hg]

/-- A glyph is registered once it was registered, behind the others if it is new. -/
theorem glyphs_registerGlyph (r : Registry) (h : glyph ≠ []) (code : UInt32) :
    (r.registerGlyph glyph code).glyphs
      = if r.codeFor? glyph = none then r.glyphs ++ [glyph] else r.glyphs := by
  rcases registerGlyph_cases r h code with ⟨hcode, hr⟩ | ⟨hcode, hr⟩ | ⟨owner, -, hcode, hr⟩
  · rw [hr, if_pos hcode]
  · rw [hr, hcode, if_neg (Option.some_ne_none code)]
  · rw [hr, hcode, if_neg (Option.some_ne_none owner)]

/-! ## Glyphs and codes agree -/

/-- The registered glyphs are those that stand for a code. -/
def Indexed (r : Registry) : Prop := ∀ g, g ∈ r.glyphs ↔ (r.codeFor? g).isSome = true

theorem Indexed.registerGlyph (h : r.Indexed) (glyph : Text) (code : UInt32) :
    (r.registerGlyph glyph code).Indexed := by
  by_cases hempty : glyph = []
  · rw [hempty, registerGlyph_nil]
    exact h
  · intro g
    rw [codeFor?_registerGlyph r g hempty, glyphs_registerGlyph r hempty]
    by_cases hg : g = glyph
    · -- the glyph is in the list: it is put there now, or it was there with its old code
      rw [if_pos hg, hg]
      by_cases hnew : r.codeFor? glyph = none
      · rw [if_pos hnew]
        simp
      · rw [if_neg hnew]
        have hmem : glyph ∈ r.glyphs := (h glyph).2 (Option.isSome_iff_ne_none.2 hnew)
        simp [hmem]
    · rw [if_neg hg, ← h g]
      split
      · simp [hg]
      · rfl

theorem Indexed.step {d : Draft} (h : d.registry.Indexed) (s : Step) :
    (d.step s).registry.Indexed := by
  cases s with
  | startCategory id minBalance => exact h
  | icon code width height price => exact h
  | glyph glyph =>
    unfold Draft.step
    cases d.icon? with
    | none => exact h
    | some code => exact h.registerGlyph glyph code
  | register glyph code => exact h.registerGlyph glyph code
  | resize code width height => exact h

/-- Over all steps the registered glyphs are those that stand for a code. -/
theorem indexed_ofSteps (steps : List Step) : (ofSteps steps).Indexed := by
  suffices hrun : ∀ d : Draft, d.registry.Indexed → (steps.foldl Draft.step d).registry.Indexed by
    exact hrun {} fun g => by simp [empty, codeFor?]
  induction steps with
  | nil => exact fun d h => h
  | cons s steps ih => exact fun d h => ih (d.step s) (h.step s)

/-- A glyph that steps have registered stands for a code. -/
theorem exists_isGlyphFor_ofSteps {steps : List Step} (hg : g ∈ (ofSteps steps).glyphs) :
    ∃ code, (ofSteps steps).IsGlyphFor code g := by
  obtain ⟨code, hcode⟩ := Option.isSome_iff_exists.1 ((indexed_ofSteps steps g).1 hg)
  exact ⟨code, hg, hcode⟩

/-! ## The order of the glyphs -/

/-- Is the first text at least as long as the second? -/
def notShorter (a b : Text) : Bool := b.length ≤ a.length

theorem glyphsLongestFirst_eq (r : Registry) :
    r.glyphsLongestFirst = r.glyphs.mergeSort notShorter := rfl

theorem notShorter_trans (a b c : Text) (h : notShorter a b = true) (h' : notShorter b c = true) :
    notShorter a c = true := by
  simp only [notShorter, decide_eq_true_eq] at *
  omega

theorem notShorter_total (a b : Text) : (notShorter a b || notShorter b a) = true := by
  simp only [notShorter, Bool.or_eq_true, decide_eq_true_eq]
  omega

/-- Longer glyphs come first. -/
theorem pairwise_glyphsLongestFirst (r : Registry) :
    r.glyphsLongestFirst.Pairwise fun g g' => g'.length ≤ g.length := by
  rw [glyphsLongestFirst_eq]
  refine (List.pairwise_mergeSort notShorter_trans notShorter_total r.glyphs).imp fun h => ?_
  simpa [notShorter] using h

/-- A text goes behind the longer ones. -/
theorem orderedInsert_notShorter {longer rest : List Text}
    (hlonger : ∀ b ∈ longer, notShorter g b = false) (hrest : ∀ b ∈ rest, notShorter g b = true) :
    (longer ++ rest).orderedInsert (fun a b => notShorter a b) g = longer ++ g :: rest := by
  induction longer with
  | nil =>
    cases rest with
    | nil => rfl
    | cons b rest => simp [List.orderedInsert_cons, hrest b List.mem_cons_self]
  | cons b longer ih =>
    rw [List.forall_mem_cons] at hlonger
    rw [List.cons_append, List.orderedInsert_cons, if_neg (by simp [hlonger.1]), ih hlonger.2,
      List.cons_append]

/-- Sorting by length is insertion sort. -/
theorem mergeSort_notShorter (l : List Text) :
    l.mergeSort notShorter = l.insertionSort fun a b => notShorter a b := by
  induction l with
  | nil => exact List.mergeSort_nil
  | cons g l ih =>
    obtain ⟨longer, rest, hsort, hsort', hlonger⟩ :=
      List.mergeSort_cons notShorter_trans notShorter_total g l
    have hpairwise := List.pairwise_mergeSort notShorter_trans notShorter_total (g :: l)
    rw [hsort] at hpairwise
    have hrest : ∀ b ∈ rest, notShorter g b = true := fun b hb =>
      List.rel_of_pairwise_cons (List.pairwise_append.1 hpairwise).2.1 hb
    rw [List.insertionSort_cons, ← ih, hsort', hsort,
      orderedInsert_notShorter (by simpa using hlonger) hrest]

/-- Where two members are marked in one list, they are the same or one stands behind the other. -/
theorem append_cons_cases {α : Type} {a b : α} {s t s' t' : List α}
    (h : s ++ a :: t = s' ++ b :: t') :
    a = b ∨ (∃ w, s' = s ++ a :: w ∧ t = w ++ b :: t') ∨ ∃ w, s = s' ++ b :: w := by
  rcases List.append_eq_append_iff.1 h with ⟨w, rfl, hw⟩ | ⟨w, rfl, hw⟩
  · rcases List.cons_eq_append_iff.1 hw with ⟨rfl, hab⟩ | ⟨w', rfl, ht⟩
    · exact Or.inl (List.cons.inj hab).1.symm
    · exact Or.inr (Or.inl ⟨w', rfl, ht⟩)
  · rcases List.cons_eq_append_iff.1 hw with ⟨rfl, hab⟩ | ⟨w', rfl, -⟩
    · exact Or.inl (List.cons.inj hab).1
    · exact Or.inr (Or.inr ⟨w', rfl⟩)

/-- Sorting by length keeps the order of texts of one length. -/
theorem idxOf_le_of_mergeSort {l before after : List Text} {g' : Text}
    (h : l.mergeSort notShorter = before ++ g :: after) (hlen : g'.length = g.length)
    (hbefore : g' ∉ before) : l.idxOf g ≤ l.idxOf g' := by
  induction l generalizing before after with
  | nil => simp at h
  | cons x l ih =>
    obtain ⟨l₁, l₂, hsort, hsort', hlonger⟩ :=
      List.mergeSort_cons notShorter_trans notShorter_total x l
    rw [hsort] at h
    by_cases hx : x = g
    · rw [hx, List.idxOf_cons_self]
      exact Nat.zero_le _
    · have hx' : x ≠ g' := by
        rintro rfl
        rcases append_cons_cases h with heq | ⟨w, rfl, -⟩ | ⟨w, rfl⟩
        · exact hx heq
        · exact hbefore (List.mem_append_right _ List.mem_cons_self)
        · -- what is sorted in front of the first text is longer
          have hg := hlonger g (List.mem_append_right _ List.mem_cons_self)
          simp [notShorter, hlen] at hg
      rw [List.idxOf_cons_ne _ hx, List.idxOf_cons_ne _ hx', Nat.succ_le_succ_iff]
      -- without the first text the rest is sorted in the same way
      rcases append_cons_cases h with heq | ⟨w, rfl, rfl⟩ | ⟨w, rfl⟩
      · exact absurd heq hx
      · have hrest : l.mergeSort notShorter = (l₁ ++ w) ++ g :: after := by
          rw [hsort', List.append_assoc]
        refine ih hrest fun hmem => ?_
        rcases List.mem_append.1 hmem with hmem | hmem
        · exact hbefore (List.mem_append_left _ hmem)
        · exact hbefore (List.mem_append_right _ (List.mem_cons_of_mem x hmem))
      · have hrest : l.mergeSort notShorter = before ++ g :: (w ++ l₂) := by
          rw [hsort', List.append_assoc, List.cons_append]
        exact ih hrest hbefore

/-- Glyphs of one length come in the order of their registration. -/
theorem idxOf_le_of_glyphsLongestFirst {before after : List Text} {g' : Text}
    (h : r.glyphsLongestFirst = before ++ g :: after) (hlen : g'.length = g.length)
    (hbefore : g' ∉ before) : r.glyphs.idxOf g ≤ r.glyphs.idxOf g' :=
  idxOf_le_of_mergeSort h hlen hbefore

end Registry

end ChatText
