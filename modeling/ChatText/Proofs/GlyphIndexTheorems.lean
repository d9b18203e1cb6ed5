import ChatText.Proofs.HistoryTheorems

/-!
# Glyphs and codes over all steps

Which glyphs a registry has, which codes they stand for and in which order they are listed is told
by the registrations among its steps: by the first one of a glyph, the last one, and the last one
that moved the glyph to another code.

* `glyphs_concat_cases` says what a step can do to the glyphs, and `owners_concat_cases` to their
  codes; each invariant is one induction over the steps, with one of the two;
* the code of a glyph is that of its last registration (`codeFor?_eq_some_iff`);
* glyphs are kept in the order of their first registrations (`pairwise_glyphs`), which sorting them
  by length keeps (`pairwise_glyphsLongestFirst_of`), and codes in the order of the last moves to
  them (`pairwise_owners`).
-/

namespace ChatText

namespace Registry

/-! ## Registrations -/

/-- The glyph that a step registers and the code that it is for, with `icon?` as the last icon
before the step. The empty glyph is not registered, nor is one that has no icon to go to. -/
def Step.registration? (icon? : Option UInt32) : Step → Option (Text × UInt32)
  | .glyph g => if g = [] then none else icon?.map (g, ·)
  | .register g code => if g = [] then none else some (g, code)
  | .startCategory _ _ | .icon _ _ _ _ | .resize _ _ _ => none

/-- The step registers the glyph for the code. -/
def Registers (g : Text) (code : UInt32) (before : List Step) (s : Step) : Prop :=
  s.registration? (lastIcon? before) = some (g, code)

/-- The step registers the glyph, for whatever code. -/
def RegistersGlyph (g : Text) (before : List Step) (s : Step) : Prop :=
  ∃ code, Registers g code before s

/-- The last registration of the glyph is for the code. -/
def LastRegisteredFor (steps : List Step) (g : Text) (code : UInt32) : Prop :=
  ∃ i, IsGreatest {i | HappensAt (RegistersGlyph g) steps i} i
    ∧ HappensAt (Registers g code) steps i

/-- The step moves the glyph to the code: it registers the glyph for the code, and before the step
the glyph stood for another code or for none. -/
def Moves (g : Text) (code : UInt32) (before : List Step) (s : Step) : Prop :=
  Registers g code before s ∧ ¬ LastRegisteredFor before g code

/-- The first registration of `g` comes before that of `g'`. -/
def FirstBefore (steps : List Step) (g g' : Text) : Prop :=
  ∃ i j, IsLeast {i | HappensAt (RegistersGlyph g) steps i} i
    ∧ IsLeast {j | HappensAt (RegistersGlyph g') steps j} j ∧ i < j

/-- The last move of the one glyph to its code comes before that of the other glyph to its code. -/
def MovedBefore (steps : List Step) (p q : Text × UInt32) : Prop :=
  ∃ i j, IsGreatest {i | HappensAt (Moves p.1 p.2) steps i} i
    ∧ IsGreatest {j | HappensAt (Moves q.1 q.2) steps j} j ∧ i < j

variable {steps : List Step} {s : Step} {g g' : Text} {code code' : UInt32}

/-- A step registers a glyph for one code. -/
theorem Registers.unique {before : List Step} (h : Registers g code before s)
    (h' : Registers g' code' before s) : g = g' ∧ code = code' := by
  have heq := Option.some.inj (Eq.trans (Eq.symm h) h')
  exact ⟨congrArg Prod.fst heq, congrArg Prod.snd heq⟩

theorem Registers.ne_nil {before : List Step} (h : Registers g code before s) : g ≠ [] := by
  rintro rfl
  cases s with
  | startCategory id minBalance => cases h
  | icon code width height price => cases h
  | resize code width height => cases h
  | glyph g =>
    obtain ⟨hne, -, hg⟩ := by simpa [Registers, Step.registration?] using h
    exact hne hg
  | register g code =>
    obtain ⟨hne, hg, -⟩ := by simpa [Registers, Step.registration?] using h
    exact hne hg

/-! ## What a step does -/

/-- A step registers a glyph, or leaves the glyphs and their codes alone. -/
theorem glyphs_concat_cases (steps : List Step) (s : Step) :
    ((∀ g, ¬ RegistersGlyph g steps s)
        ∧ (ofSteps (steps ++ [s])).glyphs = (ofSteps steps).glyphs
        ∧ (ofSteps (steps ++ [s])).owners = (ofSteps steps).owners)
      ∨ ∃ g code, g ≠ [] ∧ Registers g code steps s
        ∧ ofSteps (steps ++ [s]) = (ofSteps steps).registerGlyph g code := by
  have hnone : s.registration? (lastIcon? steps) = none → ∀ g, ¬ RegistersGlyph g steps s := by
    rintro hs g ⟨code, hcode⟩
    rw [Registers, hs] at hcode
    cases hcode
  rw [ofSteps_concat]
  cases s with
  | startCategory id minBalance => exact Or.inl ⟨hnone rfl, rfl, rfl⟩
  | icon code width height price => exact Or.inl ⟨hnone rfl, rfl, rfl⟩
  | resize code width height => exact Or.inl ⟨hnone rfl, rfl, rfl⟩
  | register glyph code =>
    by_cases hempty : glyph = []
    · subst hempty
      exact Or.inl ⟨hnone rfl, rfl, rfl⟩
    · exact Or.inr ⟨glyph, code, hempty, if_neg hempty, rfl⟩
  | glyph glyph =>
    rw [Draft.step, icon?_ofSteps]
    by_cases hempty : glyph = []
    · subst hempty
      refine Or.inl ⟨hnone rfl, ?_⟩
      split <;> exact ⟨rfl, rfl⟩
    · cases hicon : lastIcon? steps with
      | none =>
        refine Or.inl ⟨hnone ?_, rfl, rfl⟩
        rw [Step.registration?, if_neg hempty, hicon, Option.map_none]
      | some code =>
        refine Or.inr ⟨glyph, code, hempty, ?_, rfl⟩
        rw [Registers, Step.registration?, if_neg hempty, hicon, Option.map_some]

theorem codeFor?_concat_of_registers (h : Registers g code steps s) :
    (ofSteps (steps ++ [s])).codeFor? g = some code := by
  rcases glyphs_concat_cases steps s with ⟨hnone, -, -⟩ | ⟨g', code', hne, hreg, hstep⟩
  · exact absurd ⟨code, h⟩ (hnone g)
  · obtain ⟨rfl, rfl⟩ := h.unique hreg
    rw [hstep, codeFor?_registerGlyph _ _ hne, if_pos rfl]

theorem codeFor?_concat_of_not (h : ¬ RegistersGlyph g steps s) :
    (ofSteps (steps ++ [s])).codeFor? g = (ofSteps steps).codeFor? g := by
  rcases glyphs_concat_cases steps s with ⟨-, -, howners⟩ | ⟨g', code', hne, hreg, hstep⟩
  · rw [codeFor?, codeFor?, howners]
  · rw [hstep, codeFor?_registerGlyph _ _ hne, if_neg]
    rintro rfl
    exact h ⟨code', hreg⟩

/-! ## The code of a glyph -/

/-- A glyph that was never registered stands for no code. -/
theorem codeFor?_eq_none_iff :
    (ofSteps steps).codeFor? g = none ↔ ∀ i, ¬ HappensAt (RegistersGlyph g) steps i := by
  induction steps using List.reverseRecOn with
  | nil => exact iff_of_true rfl (not_happensAt_nil _)
  | append_singleton steps s ih =>
    simp only [happensAt_concat_iff, not_or, forall_and, ← ih]
    by_cases hs : RegistersGlyph g steps s
    · obtain ⟨code, hcode⟩ := hs
      rw [codeFor?_concat_of_registers hcode]
      refine iff_of_false (by simp) fun h => ?_
      exact h.2 steps.length ⟨rfl, code, hcode⟩
    · rw [codeFor?_concat_of_not hs]
      exact ⟨fun h => ⟨h, fun _ hlast => hs hlast.2⟩, fun h => h.1⟩

theorem lastRegisteredFor_concat_of_registers (h : Registers g code steps s) :
    LastRegisteredFor (steps ++ [s]) g code' ↔ code = code' := by
  have hlast : IsGreatest {i | HappensAt (RegistersGlyph g) (steps ++ [s]) i} steps.length :=
    isGreatest_concat ⟨code, h⟩
  constructor
  · rintro ⟨i, hi, hcode⟩
    obtain rfl := hi.unique hlast
    rcases happensAt_concat_iff.1 hcode with hbefore | ⟨-, hcode⟩
    · exact absurd hbefore.lt_length (Nat.lt_irrefl _)
    · exact (h.unique hcode).2
  · rintro rfl
    exact ⟨steps.length, hlast, happensAt_concat_iff.2 (Or.inr ⟨rfl, h⟩)⟩

theorem lastRegisteredFor_concat_of_not (h : ¬ RegistersGlyph g steps s) :
    LastRegisteredFor (steps ++ [s]) g code ↔ LastRegisteredFor steps g code := by
  have hcode : ¬ Registers g code steps s := fun hcode => h ⟨code, hcode⟩
  rw [LastRegisteredFor, setOf_happensAt_concat_of_not h]
  simp only [happensAt_concat_iff, hcode, and_false, or_false]
  rfl

/-- A glyph stands for the code that it was last registered for. -/
theorem codeFor?_eq_some_iff :
    (ofSteps steps).codeFor? g = some code ↔ LastRegisteredFor steps g code := by
  induction steps using List.reverseRecOn with
  | nil =>
    refine iff_of_false (by simp [ofSteps, Draft.ofSteps, empty, codeFor?]) ?_
    rintro ⟨i, -, hi⟩
    exact not_happensAt_nil _ i hi
  | append_singleton steps s ih =>
    by_cases hs : RegistersGlyph g steps s
    · obtain ⟨code', hcode'⟩ := hs
      rw [codeFor?_concat_of_registers hcode', lastRegisteredFor_concat_of_registers hcode',
        Option.some.injEq]
    · rw [codeFor?_concat_of_not hs, lastRegisteredFor_concat_of_not hs, ih]

/-! ## The order of the glyphs -/

/-- A registered glyph has a first registration. -/
theorem exists_isLeast_of_mem_glyphs (h : g ∈ (ofSteps steps).glyphs) :
    ∃ i, IsLeast {i | HappensAt (RegistersGlyph g) steps i} i := by
  have hsome : ∃ i, HappensAt (RegistersGlyph g) steps i := by
    by_contra hnone
    have hcode := codeFor?_eq_none_iff.2 fun i hi => hnone ⟨i, hi⟩
    have hindexed := (indexed_ofSteps steps g).1 h
    rw [hcode] at hindexed
    cases hindexed
  classical
  exact ⟨Nat.find hsome, Nat.find_spec hsome, fun i hi => Nat.find_min' hsome hi⟩

/-- Glyphs are kept in the order of their first registrations. -/
theorem pairwise_glyphs (steps : List Step) :
    (ofSteps steps).glyphs.Pairwise (FirstBefore steps) := by
  induction steps using List.reverseRecOn with
  | nil => exact List.Pairwise.nil
  | append_singleton steps s ih =>
    have hold : (ofSteps steps).glyphs.Pairwise (FirstBefore (steps ++ [s])) := by
      refine ih.imp ?_
      rintro g g' ⟨i, j, hi, hj, hij⟩
      exact ⟨i, j, isLeast_concat hi s, isLeast_concat hj s, hij⟩
    rcases glyphs_concat_cases steps s with ⟨-, hglyphs, -⟩ | ⟨g, code, hne, hreg, hstep⟩
    · rwa [hglyphs]
    · rw [hstep, glyphs_registerGlyph _ hne]
      split
      · -- the glyph is new, and the others were registered before
        rename_i hnew
        refine List.pairwise_append.2 ⟨hold, List.pairwise_singleton _ _, fun g' hg' x hx => ?_⟩
        obtain rfl := List.mem_singleton.1 hx
        obtain ⟨i, hi⟩ := exists_isLeast_of_mem_glyphs hg'
        exact ⟨i, steps.length, isLeast_concat hi s,
          isLeast_concat_of_forall_not (codeFor?_eq_none_iff.1 hnew) ⟨code, hreg⟩,
          HappensAt.lt_length hi.1⟩
      · exact hold

theorem FirstBefore.ne (h : FirstBefore steps g g') : g ≠ g' := by
  rintro rfl
  obtain ⟨i, j, hi, hj, hij⟩ := h
  exact Nat.ne_of_lt hij (hi.unique hj)

theorem nodup_glyphs (steps : List Step) : (ofSteps steps).glyphs.Nodup :=
  (pairwise_glyphs steps).imp FirstBefore.ne

theorem nodup_glyphsLongestFirst (steps : List Step) :
    (ofSteps steps).glyphsLongestFirst.Nodup :=
  (List.mergeSort_perm _ _).nodup_iff.2 (nodup_glyphs steps)

/-- What holds of the members of a list in their order holds of one with a smaller index and one
with a greater index. -/
theorem rel_of_idxOf_lt {R : Text → Text → Prop} {l : List Text} (hR : l.Pairwise R) (hg : g ∈ l)
    (hg' : g' ∈ l) (h : l.idxOf g < l.idxOf g') : R g g' := by
  have hrel := List.pairwise_iff_getElem.1 hR _ _ (List.idxOf_lt_length_of_mem hg)
    (List.idxOf_lt_length_of_mem hg') h
  rwa [List.getElem_idxOf, List.getElem_idxOf] at hrel

/-- Sorting by length keeps how glyphs of one length are related. -/
theorem pairwise_glyphsLongestFirst_of {r : Registry} {R : Text → Text → Prop}
    (hnodup : r.glyphsLongestFirst.Nodup) (hR : r.glyphs.Pairwise R) :
    r.glyphsLongestFirst.Pairwise fun g g' =>
      g'.length < g.length ∨ g'.length = g.length ∧ R g g' := by
  suffices hsuffix : ∀ before after, r.glyphsLongestFirst = before ++ after →
      after.Pairwise fun g g' => g'.length < g.length ∨ g'.length = g.length ∧ R g g' from
    hsuffix [] _ rfl
  intro before after h
  induction after generalizing before with
  | nil => exact List.Pairwise.nil
  | cons g after ih =>
    have hsorted := r.pairwise_glyphsLongestFirst
    have hmem : ∀ x ∈ g :: after, x ∈ r.glyphs := fun x hx =>
      List.mem_mergeSort.1 (by
        rw [← glyphsLongestFirst, h]
        exact List.mem_append_right _ hx)
    rw [h] at hsorted hnodup
    refine List.pairwise_cons.2 ⟨fun g' hg' => ?_, ih (before ++ [g]) (by rw [h]; simp)⟩
    have hle := (List.pairwise_cons.1 (List.pairwise_append.1 hsorted).2.1).1 g' hg'
    have hdisjoint := List.nodup_append.1 hnodup
    rcases Nat.lt_or_eq_of_le hle with hlt | hlen
    · exact Or.inl hlt
    · have hbefore : g' ∉ before := fun hin =>
        hdisjoint.2.2 g' hin g' (List.mem_cons_of_mem g hg') rfl
      have hidx := idxOf_le_of_glyphsLongestFirst h hlen hbefore
      have hg := hmem g List.mem_cons_self
      have hne : g ≠ g' := fun heq =>
        (List.nodup_cons.1 hdisjoint.2.1).1 (heq ▸ hg')
      have hlt : r.glyphs.idxOf g < r.glyphs.idxOf g' :=
        Nat.lt_of_le_of_ne hidx fun heq => hne ((List.idxOf_inj hg).1 heq)
      exact Or.inr ⟨hlen, rel_of_idxOf_lt hR hg (hmem g' (List.mem_cons_of_mem g hg')) hlt⟩

/-! ## The order of the codes -/

/-- A step moves a glyph, which is then the last one with a code, or leaves the codes alone. -/
theorem owners_concat_cases (steps : List Step) (s : Step) :
    ((∀ g code, ¬ Moves g code steps s)
        ∧ (ofSteps (steps ++ [s])).owners = (ofSteps steps).owners)
      ∨ ∃ g code, Moves g code steps s
        ∧ (ofSteps (steps ++ [s])).owners
          = (ofSteps steps).owners.filter (·.1 != g) ++ [(g, code)] := by
  rcases glyphs_concat_cases steps s with ⟨hnone, -, howners⟩ | ⟨g, code, hne, hreg, hstep⟩
  · exact Or.inl ⟨fun g code hmoves => hnone g ⟨code, hmoves.1⟩, howners⟩
  · rcases registerGlyph_cases (ofSteps steps) hne code with
      ⟨hnew, hr⟩ | ⟨hsame, hr⟩ | ⟨owner, hother, hcode, hr⟩
    · refine Or.inr ⟨g, code, ⟨hreg, fun hlast => ?_⟩, ?_⟩
      · rw [codeFor?_eq_some_iff.2 hlast] at hnew
        cases hnew
      · -- a glyph without a code has no entry to drop
        have hkeep : (ofSteps steps).owners.filter (·.1 != g) = (ofSteps steps).owners :=
          List.filter_eq_self.2 fun p hp => by
            simpa [bne_comm] using List.lookup_eq_none_iff.1 hnew p hp
        rw [hstep, hr, hkeep]
    · -- a glyph that stands for the code was registered for it last, so this is no move
      refine Or.inl ⟨fun g' code' hmoves => hmoves.2 ?_, by rw [hstep, hr]⟩
      obtain ⟨rfl, rfl⟩ := hreg.unique hmoves.1
      exact codeFor?_eq_some_iff.1 hsame
    · refine Or.inr ⟨g, code, ⟨hreg, fun hlast => hother ?_⟩, by rw [hstep, hr]⟩
      rw [codeFor?_eq_some_iff.2 hlast] at hcode
      exact (Option.some.inj hcode).symm

/-- A step moves one glyph only. -/
theorem not_moves_of_ne (h : Moves g code steps s) (hne : g' ≠ g) : ¬ Moves g' code' steps s :=
  fun h' => hne (h'.1.unique h.1).1

theorem MovedBefore.concat {p q : Text × UInt32} (h : MovedBefore steps p q)
    (hp : ¬ Moves p.1 p.2 steps s) (hq : ¬ Moves q.1 q.2 steps s) :
    MovedBefore (steps ++ [s]) p q := by
  rwa [MovedBefore, setOf_happensAt_concat_of_not hp, setOf_happensAt_concat_of_not hq]

/-- A glyph with a code was moved there. -/
theorem exists_isGreatest_of_mem_owners {p : Text × UInt32} (h : p ∈ (ofSteps steps).owners) :
    ∃ i, IsGreatest {i | HappensAt (Moves p.1 p.2) steps i} i := by
  induction steps using List.reverseRecOn with
  | nil => cases h
  | append_singleton steps s ih =>
    rcases owners_concat_cases steps s with ⟨hnone, howners⟩ | ⟨g, code, hmoves, howners⟩
    · rw [setOf_happensAt_concat_of_not (hnone p.1 p.2)]
      exact ih (howners ▸ h)
    · rw [howners, List.mem_append, List.mem_filter, List.mem_singleton] at h
      rcases h with ⟨hold, hne⟩ | rfl
      · rw [setOf_happensAt_concat_of_not (not_moves_of_ne hmoves (by simpa using hne))]
        exact ih hold
      · exact ⟨steps.length, isGreatest_concat hmoves⟩

/-- Glyphs are kept with their codes in the order of their last moves. -/
theorem pairwise_owners (steps : List Step) :
    (ofSteps steps).owners.Pairwise (MovedBefore steps) := by
  induction steps using List.reverseRecOn with
  | nil => exact List.Pairwise.nil
  | append_singleton steps s ih =>
    rcases owners_concat_cases steps s with ⟨hnone, howners⟩ | ⟨g, code, hmoves, howners⟩
    · rw [howners]
      exact ih.imp fun h => h.concat (hnone _ _) (hnone _ _)
    · have hother : ∀ p ∈ (ofSteps steps).owners.filter (·.1 != g), ¬ Moves p.1 p.2 steps s :=
        fun p hp => not_moves_of_ne hmoves (by simpa using (List.mem_filter.1 hp).2)
      rw [howners]
      -- the glyphs that stay keep their last moves, and the one that moves goes behind them
      refine List.pairwise_append.2 ⟨?_, List.pairwise_singleton _ _, fun p hp q hq => ?_⟩
      · exact (ih.filter _).imp_of_mem fun hp hq h => h.concat (hother _ hp) (hother _ hq)
      · obtain rfl := List.mem_singleton.1 hq
        obtain ⟨i, hi⟩ := exists_isGreatest_of_mem_owners (List.mem_filter.1 hp).1
        rw [MovedBefore, setOf_happensAt_concat_of_not (hother p hp)]
        exact ⟨i, steps.length, hi, isGreatest_concat hmoves, HappensAt.lt_length hi.1⟩

/-! ## The glyphs of a code -/

/-- A glyph has one code. -/
theorem nodup_keys_owners (steps : List Step) : ((ofSteps steps).owners.map Prod.fst).Nodup := by
  induction steps using List.reverseRecOn with
  | nil => exact List.nodup_nil
  | append_singleton steps s ih =>
    rcases owners_concat_cases steps s with ⟨-, howners⟩ | ⟨g, code, -, howners⟩
    · rwa [howners]
    · rw [howners, List.map_append, List.nodup_append]
      refine ⟨ih.sublist (List.filter_sublist.map _), List.nodup_singleton _, ?_⟩
      rintro g' hg' x hx rfl
      obtain ⟨p, hp, hpx⟩ := List.mem_map.1 hg'
      have hne : p.1 ≠ g := by simpa using (List.mem_filter.1 hp).2
      exact hne (hpx.trans (List.mem_singleton.1 hx))

/-- Where no key comes twice, looking a key up finds its entry. -/
theorem lookup_eq_some_iff_mem {entries : List (Text × UInt32)}
    (h : (entries.map Prod.fst).Nodup) : entries.lookup g = some code ↔ (g, code) ∈ entries := by
  induction entries with
  | nil => simp
  | cons p entries ih =>
    rw [List.map_cons, List.nodup_cons] at h
    rw [lookup_cons_eq_ite, List.mem_cons]
    by_cases hg : g = p.1
    · have hrest : (g, code) ∉ entries := fun hmem =>
        h.1 (hg ▸ List.mem_map_of_mem hmem)
      rw [if_pos hg, Option.some.injEq, or_iff_left hrest, Prod.ext_iff]
      exact ⟨fun hcode => ⟨hg, hcode.symm⟩, fun hp => hp.2.symm⟩
    · rw [if_neg hg, ih h.2, or_iff_right fun hp => hg (congrArg Prod.fst hp)]

/-- The glyphs listed for a code are those that stand for it. -/
theorem mem_glyphsFor_ofSteps_iff :
    g ∈ (ofSteps steps).glyphsFor code ↔ (ofSteps steps).codeFor? g = some code := by
  rw [codeFor?, lookup_eq_some_iff_mem (nodup_keys_owners steps), glyphsFor, List.mem_map]
  constructor
  · rintro ⟨p, hp, rfl⟩
    obtain ⟨hmem, hcode⟩ := List.mem_filter.1 hp
    rwa [← eq_of_beq hcode]
  · exact fun hmem => ⟨(g, code), List.mem_filter.2 ⟨hmem, beq_self_eq_true code⟩, rfl⟩

theorem nodup_glyphsFor_ofSteps (steps : List Step) (code : UInt32) :
    ((ofSteps steps).glyphsFor code).Nodup :=
  (nodup_keys_owners steps).sublist (List.filter_sublist.map _)

theorem pairwise_glyphsFor_ofSteps (steps : List Step) (code : UInt32) :
    ((ofSteps steps).glyphsFor code).Pairwise fun g g' =>
      MovedBefore steps (g, code) (g', code) := by
  refine List.pairwise_map.2 (((pairwise_owners steps).filter _).imp_of_mem ?_)
  rintro ⟨g, c⟩ ⟨g', c'⟩ hp hq h
  obtain rfl : c = code := eq_of_beq (List.mem_filter.1 hp).2
  obtain rfl : c' = c := eq_of_beq (List.mem_filter.1 hq).2
  exact h

/-- A glyph that leaves a code and comes back goes behind the others, one that stays does not. -/
example : (ofSteps [.icon 1 9 9 0, .glyph ['a'], .glyph ['b'], .register ['a'] 2,
    .register ['a'] 1, .register ['b'] 1]).glyphsFor 1 = [['b'], ['a']] := by decide

/-! ## All glyphs -/

theorem mem_glyphsLongestFirst_ofSteps_iff :
    g ∈ (ofSteps steps).glyphsLongestFirst ↔ ((ofSteps steps).codeFor? g).isSome = true := by
  rw [glyphsLongestFirst, List.mem_mergeSort, indexed_ofSteps steps g]

theorem nil_notMem_glyphsLongestFirst_ofSteps (steps : List Step) :
    [] ∉ (ofSteps steps).glyphsLongestFirst := by
  intro h
  obtain ⟨code, hcode⟩ := Option.isSome_iff_exists.1 (mem_glyphsLongestFirst_ofSteps_iff.1 h)
  obtain ⟨i, -, s, -, hreg⟩ := codeFor?_eq_some_iff.1 hcode
  exact hreg.ne_nil rfl

/-- **The glyph index.** Over all steps the views of a registry on its glyphs agree. A glyph stands
for the code that it was last registered for. All glyphs that stand for a code are listed, each once
and none empty, longer ones first and those of one length in the order of their first registrations.
The glyphs of a code are those that stand for it, each once, in the order of their last moves to the
code. -/
theorem glyph_index_ofSteps (steps : List Step) :
    (∀ g code, (ofSteps steps).codeFor? g = some code ↔ LastRegisteredFor steps g code)
    ∧ ((∀ g, g ∈ (ofSteps steps).glyphsLongestFirst ↔ ((ofSteps steps).codeFor? g).isSome = true)
      ∧ (ofSteps steps).glyphsLongestFirst.Nodup
      ∧ [] ∉ (ofSteps steps).glyphsLongestFirst
      ∧ (ofSteps steps).glyphsLongestFirst.Pairwise fun g g' =>
          g'.length < g.length ∨ g'.length = g.length ∧ FirstBefore steps g g')
    ∧ ∀ code,
      (∀ g, g ∈ (ofSteps steps).glyphsFor code ↔ (ofSteps steps).codeFor? g = some code)
      ∧ ((ofSteps steps).glyphsFor code).Nodup
      ∧ ((ofSteps steps).glyphsFor code).Pairwise fun g g' =>
          MovedBefore steps (g, code) (g', code) := by
  refine ⟨fun g code => codeFor?_eq_some_iff, ⟨fun g => mem_glyphsLongestFirst_ofSteps_iff,
    nodup_glyphsLongestFirst steps, nil_notMem_glyphsLongestFirst_ofSteps steps, ?_⟩,
    fun code => ⟨fun g => mem_glyphsFor_ofSteps_iff, nodup_glyphsFor_ofSteps steps code,
      pairwise_glyphsFor_ofSteps steps code⟩⟩
  exact pairwise_glyphsLongestFirst_of (nodup_glyphsLongestFirst steps) (pairwise_glyphs steps)

end Registry

end ChatText
