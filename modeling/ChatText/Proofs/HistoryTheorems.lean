import ChatText.Proofs.RegistryTheorems

/-!
# The steps behind a registry

What a registry says is told by the steps that put it together: by the last step of some kind, or
the first one. A step is known by its position, and what it does may depend on the steps before it,
for a glyph goes to the icon in hand and an icon under the category in force. `HappensAt` is about
such a step, and `happensAt_concat_iff` is what one more step adds to a history.

Where it matters what came before the last step of a kind and what came behind it, `LastStep` takes
the history apart there; one more step is the last one itself or comes behind it
(`LastStep.concat_cases`).
-/

namespace ChatText

namespace Registry

variable {P : List Step → Step → Prop} {steps : List Step} {s : Step} {i : Nat}

/-! ## One more step -/

theorem Draft.ofSteps_concat (steps : List Step) (s : Step) :
    Draft.ofSteps (steps ++ [s]) = (Draft.ofSteps steps).step s := by
  rw [Draft.ofSteps, List.foldl_append, List.foldl_cons, List.foldl_nil, Draft.ofSteps]

theorem ofSteps_concat (steps : List Step) (s : Step) :
    ofSteps (steps ++ [s]) = ((Draft.ofSteps steps).step s).registry := by
  rw [ofSteps, Draft.ofSteps_concat]

/-- What is said of a step and the steps before it, said of the step at position `i`. -/
def HappensAt (P : List Step → Step → Prop) (steps : List Step) (i : Nat) : Prop :=
  ∃ s, steps[i]? = some s ∧ P (steps.take i) s

theorem not_happensAt_nil (P : List Step → Step → Prop) (i : Nat) : ¬ HappensAt P [] i := by
  rintro ⟨s, hs, -⟩
  simp at hs

theorem HappensAt.lt_length (h : HappensAt P steps i) : i < steps.length := by
  obtain ⟨s, hs, -⟩ := h
  exact (List.getElem?_eq_some_iff.1 hs).1

theorem HappensAt.mono {Q : List Step → Step → Prop} (hPQ : ∀ before s, P before s → Q before s)
    (h : HappensAt P steps i) : HappensAt Q steps i := by
  obtain ⟨s, hs, hP⟩ := h
  exact ⟨s, hs, hPQ _ _ hP⟩

/-- One more step leaves the positions of the others, and stands behind them. -/
theorem happensAt_concat_iff :
    HappensAt P (steps ++ [s]) i ↔ HappensAt P steps i ∨ i = steps.length ∧ P steps s := by
  unfold HappensAt
  rcases Nat.lt_trichotomy i steps.length with hlt | heq | hgt
  · have htake : (steps ++ [s]).take i = steps.take i :=
      List.take_append_of_le_length (Nat.le_of_lt hlt)
    rw [List.getElem?_append_left hlt, htake]
    simp [Nat.ne_of_lt hlt]
  · subst heq
    simp
  · have hnone : (steps ++ [s])[i]? = none := by
      rw [List.getElem?_eq_none_iff, List.length_append, List.length_singleton]
      omega
    have hnone' : steps[i]? = none := List.getElem?_eq_none (Nat.le_of_lt hgt)
    simp [hnone, hnone', Nat.ne_of_gt hgt]

/-- A step that does nothing of the kind changes nothing in the history. -/
theorem setOf_happensAt_concat_of_not (h : ¬ P steps s) :
    {i | HappensAt P (steps ++ [s]) i} = {i | HappensAt P steps i} := by
  ext i
  simp [happensAt_concat_iff, h]

/-- A step of the kind is the last one. -/
theorem isGreatest_concat (h : P steps s) :
    IsGreatest {i | HappensAt P (steps ++ [s]) i} steps.length := by
  refine ⟨happensAt_concat_iff.2 (Or.inr ⟨rfl, h⟩), fun i hi => ?_⟩
  have hlt := HappensAt.lt_length hi
  rw [List.length_append, List.length_singleton] at hlt
  omega

/-- If there was one of the kind already, the first one stays the first. -/
theorem isLeast_concat (h : IsLeast {i | HappensAt P steps i} i) (s : Step) :
    IsLeast {i | HappensAt P (steps ++ [s]) i} i := by
  refine ⟨happensAt_concat_iff.2 (Or.inl h.1), fun j hj => ?_⟩
  rcases happensAt_concat_iff.1 hj with hj | ⟨rfl, -⟩
  · exact h.2 hj
  · exact Nat.le_of_lt (HappensAt.lt_length h.1)

/-- If there was none of the kind before, the step is the first one. -/
theorem isLeast_concat_of_forall_not (hnone : ∀ i, ¬ HappensAt P steps i) (h : P steps s) :
    IsLeast {i | HappensAt P (steps ++ [s]) i} steps.length := by
  refine ⟨happensAt_concat_iff.2 (Or.inr ⟨rfl, h⟩), fun j hj => ?_⟩
  rcases happensAt_concat_iff.1 hj with hj | ⟨rfl, -⟩
  · exact absurd hj (hnone j)
  · exact Nat.le_refl _

/-! ## The last step of a kind -/

/-- `s` is the last step of a kind, with `before` in front of it and `after` behind it. -/
structure LastStep (kind : Step → Prop) (steps before : List Step) (s : Step) (after : List Step) :
    Prop where
  steps_eq : steps = before ++ s :: after
  of_kind : kind s
  later : ∀ x ∈ after, ¬ kind x

section

variable {kind : Step → Prop} {before after : List Step} {x : Step}

theorem not_lastStep_nil : ¬ LastStep kind [] before x after := fun h =>
  absurd h.steps_eq.symm (by simp)

theorem lastStep_concat_self (hs : kind s) : LastStep kind (steps ++ [s]) steps s [] :=
  ⟨rfl, hs, fun _ hx => absurd hx List.not_mem_nil⟩

theorem LastStep.concat (h : LastStep kind steps before x after) (hs : ¬ kind s) :
    LastStep kind (steps ++ [s]) before x (after ++ [s]) := by
  refine ⟨by rw [h.steps_eq, List.append_assoc, List.cons_append], h.of_kind, fun y hy => ?_⟩
  cases List.mem_append.1 hy with
  | inl hy => exact h.later y hy
  | inr hy => rwa [List.mem_singleton.1 hy]

/-- Of one more step the kind decides whether it is the last one or comes behind it. -/
theorem LastStep.concat_cases (h : LastStep kind (steps ++ [s]) before x after) :
    (kind s ∧ before = steps ∧ x = s ∧ after = [])
      ∨ ¬ kind s ∧ ∃ earlier, after = earlier ++ [s] ∧ LastStep kind steps before x earlier := by
  obtain ⟨hsteps, hkind, hlater⟩ := h
  rcases List.eq_nil_or_concat' after with rfl | ⟨earlier, y, rfl⟩
  · obtain ⟨rfl, rfl⟩ := List.append_singleton_inj.1 hsteps
    exact Or.inl ⟨hkind, rfl, rfl, rfl⟩
  · rw [← List.cons_append, ← List.append_assoc, List.append_singleton_inj] at hsteps
    obtain ⟨hsteps, rfl⟩ := hsteps
    refine Or.inr ⟨hlater s List.mem_concat_self, earlier, rfl, hsteps, hkind, fun z hz => ?_⟩
    exact hlater z (List.mem_append_left _ hz)

/-- Where there is a step of the kind there is a last one. -/
theorem exists_lastStep (h : ∃ s ∈ steps, kind s) :
    ∃ before s after, LastStep kind steps before s after := by
  induction steps using List.reverseRecOn with
  | nil =>
    obtain ⟨s, hs, -⟩ := h
    cases hs
  | append_singleton steps s ih =>
    by_cases hs : kind s
    · exact ⟨steps, s, [], lastStep_concat_self hs⟩
    · obtain ⟨x, hx, hkind⟩ := h
      have hmem : x ∈ steps := by
        refine (List.mem_append.1 hx).resolve_right fun hlast => hs ?_
        rwa [← List.mem_singleton.1 hlast]
      obtain ⟨before, y, after, hy⟩ := ih ⟨x, hmem, hkind⟩
      exact ⟨before, y, after ++ [s], hy.concat hs⟩

end

/-! ## The icon in hand and the category in force -/

/-- The code of the icon that a step registers. -/
def Step.iconCode? : Step → Option UInt32
  | .icon code _ _ _ => some code
  | .startCategory _ _ | .glyph _ | .register _ _ | .resize _ _ _ => none

/-- The category that a step starts. -/
def Step.category? : Step → Option Category
  | .startCategory id minBalance => some ⟨id, minBalance⟩
  | .icon _ _ _ _ | .glyph _ | .register _ _ | .resize _ _ _ => none

/-- The new size that a step gives to the image of the code. -/
def Step.newSize? (code : UInt32) : Step → Option (UInt32 × UInt32)
  | .resize code' width height => if code' = code then some (width, height) else none
  | .startCategory _ _ | .icon _ _ _ _ | .glyph _ | .register _ _ => none

/-- The code of the last icon. -/
def lastIcon? (steps : List Step) : Option UInt32 := (steps.filterMap Step.iconCode?).getLast?

/-- The category that was started last; before the first start the unknown one is in force. -/
def categoryInForce (steps : List Step) : Category :=
  (steps.filterMap Step.category?).getLast?.getD ⟨unknownCategory, 0⟩

/-- What steps tell is told by the last one that tells anything. -/
theorem getLast?_filterMap_concat {α : Type} (f : Step → Option α) (steps : List Step) (s : Step) :
    ((steps ++ [s]).filterMap f).getLast? = (f s).or (steps.filterMap f).getLast? := by
  rw [List.filterMap_append, List.getLast?_append]
  cases hs : f s with
  | none => rw [List.filterMap_cons_none hs, List.filterMap_nil, List.getLast?_nil]
  | some a => rw [List.filterMap_cons_some hs, List.filterMap_nil, List.getLast?_singleton]

theorem categoryInForce_concat (steps : List Step) (s : Step) :
    categoryInForce (steps ++ [s]) = s.category?.getD (categoryInForce steps) := by
  rw [categoryInForce, getLast?_filterMap_concat, Option.getD_or, categoryInForce]

/-- Glyphs are attached to the last icon. -/
theorem icon?_ofSteps (steps : List Step) : (Draft.ofSteps steps).icon? = lastIcon? steps := by
  induction steps using List.reverseRecOn with
  | nil => rfl
  | append_singleton steps s ih =>
    rw [Draft.ofSteps_concat, lastIcon?, getLast?_filterMap_concat, ← lastIcon?, ← ih]
    cases s with
    | glyph glyph =>
      rw [Draft.step]
      split <;> rfl
    | _ => rfl

/-- Icons are placed under the category in force. -/
theorem category_ofSteps (steps : List Step) :
    (Draft.ofSteps steps).category = categoryInForce steps := by
  induction steps using List.reverseRecOn with
  | nil => rfl
  | append_singleton steps s ih =>
    rw [Draft.ofSteps_concat, categoryInForce_concat, ← ih]
    cases s with
    | glyph glyph =>
      rw [Draft.step]
      split <;> rfl
    | _ => rfl

end Registry

end ChatText
