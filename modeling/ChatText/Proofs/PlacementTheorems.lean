import ChatText.Proofs.CategoryTheorems

/-!
# The order of a category listing

A category lists the codes of the icons that came between its last start and the next start of any
category (`placedSinceStart_placedCodes`). They are put in order at the end, by the heights that the
images have then: `IsStableSort` says what it is to be in order and where images of one height go,
and there is one such list only (`IsStableSort.unique`).
-/

namespace ChatText

namespace Registry

/-! ## Stable sorting -/

/-- The list is put in ascending order of a key, and the members of one key stay as they came. -/
structure IsStableSort {α : Type} (key : α → UInt32) (l sorted : List α) : Prop where
  pairwise : sorted.Pairwise fun a b => key a ≤ key b
  stable : ∀ k, sorted.filter (key · = k) = l.filter (key · = k)

section

variable {α : Type} {key : α → UInt32}

theorem isStableSort_mergeSort (key : α → UInt32) (l : List α) :
    IsStableSort key l (l.mergeSort fun a b => key a ≤ key b) := by
  have htrans : ∀ a b c, decide (key a ≤ key b) = true → decide (key b ≤ key c) = true →
      decide (key a ≤ key c) = true := by
    intro a b c hab hbc
    rw [decide_eq_true_eq] at hab hbc ⊢
    exact UInt32.le_trans hab hbc
  have htotal : ∀ a b, (decide (key a ≤ key b) || decide (key b ≤ key a)) = true := by
    intro a b
    simpa using UInt32.le_total (key a) (key b)
  refine ⟨?_, fun k => ?_⟩
  · refine (List.pairwise_mergeSort htrans htotal l).imp fun h => ?_
    simpa using h
  · -- members of one key are in order as they came, so sorting keeps them so
    have hsame : (l.filter (key · = k)).Pairwise fun a b => decide (key a ≤ key b) = true := by
      apply List.pairwise_of_forall_mem_list
      intro a ha b hb
      have hka : key a = k := by simpa using (List.mem_filter.1 ha).2
      have hkb : key b = k := by simpa using (List.mem_filter.1 hb).2
      rw [decide_eq_true_eq, hka, hkb]
      exact UInt32.le_refl k
    have hsublist :=
      (List.sublist_mergeSort htrans htotal hsame List.filter_sublist).filter (key · = k)
    simp only [List.filter_filter, Bool.and_self] at hsublist
    have hlength := ((List.mergeSort_perm l fun a b => key a ≤ key b).filter (key · = k)).length_eq
    exact (hsublist.eq_of_length hlength.symm).symm

/-- Lists in order with the same members of each key are the same. -/
theorem eq_of_pairwise_of_filter_eq {l l' : List α} (hl : l.Pairwise fun a b => key a ≤ key b)
    (hl' : l'.Pairwise fun a b => key a ≤ key b)
    (h : ∀ k, l.filter (key · = k) = l'.filter (key · = k)) : l = l' := by
  have hmem : ∀ a, a ∈ l ↔ a ∈ l' := by
    intro a
    have ha : a ∈ l.filter (key · = key a) ↔ a ∈ l'.filter (key · = key a) := by rw [h]
    simpa using ha
  induction l generalizing l' with
  | nil =>
    symm
    rw [List.eq_nil_iff_forall_not_mem]
    intro a ha
    exact absurd ((hmem a).2 ha) List.not_mem_nil
  | cons a l ih =>
    cases l' with
    | nil => exact absurd ((hmem a).1 List.mem_cons_self) List.not_mem_nil
    | cons b l' =>
      rw [List.pairwise_cons] at hl hl'
      -- the first members both have the least key, and so they are the first ones of that key
      have hkey : key a = key b := by
        apply UInt32.le_antisymm
        · cases List.mem_cons.1 ((hmem b).2 List.mem_cons_self) with
          | inl hb => exact UInt32.le_of_eq (congrArg key hb.symm)
          | inr hb => exact hl.1 b hb
        · cases List.mem_cons.1 ((hmem a).1 List.mem_cons_self) with
          | inl ha => exact UInt32.le_of_eq (congrArg key ha.symm)
          | inr ha => exact hl'.1 a ha
      have hfirst := h (key a)
      rw [List.filter_cons_of_pos (by simp), List.filter_cons_of_pos (by simp [hkey]),
        List.cons.injEq] at hfirst
      obtain ⟨rfl, hrest⟩ := hfirst
      have hfilter : ∀ k, l.filter (key · = k) = l'.filter (key · = k) := by
        intro k
        by_cases hk : key a = k
        · rw [← hk]
          exact hrest
        · have hall := h k
          rwa [List.filter_cons_of_neg (by simpa using hk),
            List.filter_cons_of_neg (by simpa using hk)] at hall
      rw [ih hl.2 hl'.2 hfilter fun x => ?_]
      have hx : x ∈ l.filter (key · = key x) ↔ x ∈ l'.filter (key · = key x) := by rw [hfilter]
      simpa using hx

theorem IsStableSort.unique {l sorted sorted' : List α} (h : IsStableSort key l sorted)
    (h' : IsStableSort key l sorted') : sorted = sorted' :=
  eq_of_pairwise_of_filter_eq h.pairwise h'.pairwise fun k => (h.stable k).trans (h'.stable k).symm

end

/-! ## The icons since the last start -/

/-- The steps, behind the start of the unknown category that a draft begins with. -/
def history (steps : List Step) : List Step := .startCategory unknownCategory 0 :: steps

/-- The codes of the icons in front of the next start of a category. -/
def codesToNextStart (steps : List Step) : List UInt32 :=
  (steps.takeWhile fun s => s.category?.isNone).filterMap Step.iconCode?

/-- The codes that icons have placed under a category since its last start. -/
inductive PlacedSinceStart (steps : List Step) (id : UInt32) : List UInt32 → Prop where
  | started {before after : List Step} {s : Step}
      (h : LastStep (·.startedId? = some id) (history steps) before s after) :
      PlacedSinceStart steps id (codesToNextStart after)
  | unstarted (h : ∀ s ∈ history steps, s.startedId? ≠ some id) : PlacedSinceStart steps id []

variable {steps before after : List Step} {s x : Step} {id : UInt32}

theorem history_concat (steps : List Step) (s : Step) :
    history (steps ++ [s]) = history steps ++ [s] := rfl

/-- One more icon counts as long as no category is started. -/
theorem codesToNextStart_concat (steps : List Step) (s : Step) :
    codesToNextStart (steps ++ [s])
      = codesToNextStart steps
        ++ if ∀ x ∈ steps, x.category? = none then s.iconCode?.toList else [] := by
  rw [codesToNextStart, codesToNextStart, List.takeWhile_append]
  by_cases h : ∀ x ∈ steps, x.category? = none
  · have hall : (steps.takeWhile fun x => x.category?.isNone) = steps :=
      List.takeWhile_eq_self_iff.2 fun x hx => Option.isNone_iff_eq_none.2 (h x hx)
    rw [hall, if_pos rfl, if_pos h, List.filterMap_append]
    congr 1
    cases s <;> rfl
  · have hsome : ¬ (steps.takeWhile fun x => x.category?.isNone).length = steps.length := by
      intro hlength
      have hall := (List.takeWhile_prefix _).eq_of_length hlength
      refine h fun x hx => Option.isNone_iff_eq_none.1 ?_
      exact List.takeWhile_eq_self_iff.1 hall x hx
    rw [if_neg hsome, if_neg h, List.append_nil]

theorem lastStep_history_nil (h : LastStep (·.startedId? = some id) (history []) before x after) :
    id = unknownCategory ∧ after = [] := by
  have hconcat : LastStep (·.startedId? = some id) ([] ++ [.startCategory unknownCategory 0])
      before x after := h
  rcases hconcat.concat_cases with ⟨hid, -, -, hafter⟩ | ⟨-, earlier, -, hearlier⟩
  · exact ⟨(Option.some.inj hid).symm, hafter⟩
  · exact absurd hearlier not_lastStep_nil

/-- A category is in force from its last start to the next start of any category. -/
theorem categoryInForce_id_eq_iff
    (h : LastStep (·.startedId? = some id) (history steps) before x after) :
    (categoryInForce steps).id = id ↔ ∀ y ∈ after, y.category? = none := by
  induction steps using List.reverseRecOn generalizing after with
  | nil =>
    obtain ⟨rfl, rfl⟩ := lastStep_history_nil h
    exact iff_of_true rfl fun y hy => absurd hy List.not_mem_nil
  | append_singleton steps s ih =>
    rw [categoryInForce_concat]
    rw [history_concat] at h
    rcases h.concat_cases with ⟨hid, -, -, rfl⟩ | ⟨hid, earlier, rfl, hearlier⟩
    · obtain ⟨c, hc, rfl⟩ := Option.map_eq_some_iff.1 hid
      rw [hc]
      exact iff_of_true rfl fun y hy => absurd hy List.not_mem_nil
    · cases hc : s.category? with
      | none =>
        rw [Option.getD_none, ih hearlier]
        simp [hc, or_imp, forall_and]
      | some c =>
        refine iff_of_false (fun heq => hid ?_) fun hnone => ?_
        · rw [Step.startedId?, hc, Option.map_some, ← heq, Option.getD_some]
        · have hs := hnone s List.mem_concat_self
          rw [hc] at hs
          cases hs

theorem exists_category?_eq_categoryInForce (steps : List Step) :
    ∃ s ∈ history steps, s.category? = some (categoryInForce steps) := by
  induction steps using List.reverseRecOn with
  | nil => exact ⟨_, List.mem_singleton_self _, rfl⟩
  | append_singleton steps s ih =>
    rw [categoryInForce_concat, history_concat]
    cases hc : s.category? with
    | none =>
      obtain ⟨y, hy, hcategory⟩ := ih
      exact ⟨y, List.mem_append_left _ hy, hcategory⟩
    | some c => exact ⟨s, List.mem_concat_self, hc⟩

theorem placedCodes_of_lastStep
    (h : LastStep (·.startedId? = some id) (history steps) before x after) :
    (ofSteps steps).placedCodes id = codesToNextStart after := by
  induction steps using List.reverseRecOn generalizing after with
  | nil =>
    obtain ⟨-, rfl⟩ := lastStep_history_nil h
    rfl
  | append_singleton steps s ih =>
    rw [placedCodes_concat]
    rw [history_concat] at h
    rcases h.concat_cases with ⟨hid, -, -, rfl⟩ | ⟨hid, earlier, rfl, hearlier⟩
    · rw [if_pos hid]
      rfl
    · rw [if_neg hid, ih hearlier, codesToNextStart_concat]
      simp only [categoryInForce_id_eq_iff hearlier]

theorem placedCodes_of_forall_ne (h : ∀ s ∈ history steps, s.startedId? ≠ some id) :
    (ofSteps steps).placedCodes id = [] := by
  induction steps using List.reverseRecOn with
  | nil => rfl
  | append_singleton steps s ih =>
    rw [history_concat] at h
    have hsteps : ∀ x ∈ history steps, x.startedId? ≠ some id := fun x hx =>
      h x (List.mem_append_left _ hx)
    -- the category in force was started, so it is another one
    have hother : (categoryInForce steps).id ≠ id := by
      intro heq
      obtain ⟨x, hx, hcategory⟩ := exists_category?_eq_categoryInForce steps
      refine hsteps x hx ?_
      rw [Step.startedId?, hcategory, Option.map_some, heq]
    rw [placedCodes_concat, if_neg (h s List.mem_concat_self), ih hsteps, if_neg hother,
      List.append_nil]

theorem placedSinceStart_iff {placed : List UInt32} :
    PlacedSinceStart steps id placed ↔ (ofSteps steps).placedCodes id = placed := by
  constructor
  · rintro (h | h)
    · exact placedCodes_of_lastStep h
    · exact placedCodes_of_forall_ne h
  · rintro rfl
    by_cases hstarted : ∃ s ∈ history steps, s.startedId? = some id
    · obtain ⟨before, s, after, h⟩ := exists_lastStep hstarted
      rw [placedCodes_of_lastStep h]
      exact .started h
    · have hnone : ∀ s ∈ history steps, s.startedId? ≠ some id := fun s hs hid =>
        hstarted ⟨s, hs, hid⟩
      rw [placedCodes_of_forall_ne hnone]
      exact .unstarted hnone

/-! ## Category listings -/

/-- **Category listings.** Over all steps a category lists known codes only: those of the icons
between its last start and the next start of any category, in the order of the heights that their
images have at the end, and those of one height in the order of the icons. -/
theorem codesIn_ofSteps_sorted (steps : List Step) (id : UInt32) :
    (∀ code ∈ (ofSteps steps).codesIn id, (ofSteps steps).isKnown code = true)
      ∧ ∀ codes, (ofSteps steps).codesIn id = codes ↔
        ∃ placed, PlacedSinceStart steps id placed
          ∧ IsStableSort (ofSteps steps).heightOf placed codes := by
  have hsort : IsStableSort (ofSteps steps).heightOf ((ofSteps steps).placedCodes id)
      ((ofSteps steps).codesIn id) := isStableSort_mergeSort _ _
  refine ⟨fun code hcode => isKnown_of_mem_codesIn hcode, fun codes => ?_⟩
  constructor
  · rintro rfl
    exact ⟨_, placedSinceStart_iff.2 rfl, hsort⟩
  · rintro ⟨placed, hplaced, hcodes⟩
    rw [← placedSinceStart_iff.1 hplaced] at hcodes
    exact hsort.unique hcodes

/-- An icon of the category is made higher after another category was started. -/
example : (ofSteps [.startCategory 6 0, .icon 161 32 32 0, .icon 57 46 40 0, .startCategory 2 1,
    .icon 555 70 20 1, .resize 161 32 48]).codesIn 6 = [57, 161] := by
  cbv

end Registry

end ChatText
