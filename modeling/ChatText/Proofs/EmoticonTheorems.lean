import ChatText.Proofs.CategoryTheorems

/-!
# What steps leave of an emoticon and of a category

Every entry of a registry goes back to the last step of a kind. An emoticon is described by the last
icon with its code: the price and the category in force are those of that step, and the size is the
one that came with it or a later correction (`emoticon?_eq_some_iff`). A category is that of its
last start (`mem_categories_iff`), but it has the place of its first one (`map_id_categories`).
-/

namespace ChatText

namespace Registry

variable {r : Registry} {steps : List Step} {s : Step} {id code : UInt32} {c : Category}
  {e : Emoticon}

/-! ## The description of an emoticon -/

/-- The last size that steps give to the image of a code; without a new one it keeps its size. -/
def lastSize (code : UInt32) (size : UInt32 × UInt32) (steps : List Step) : UInt32 × UInt32 :=
  (steps.filterMap (Step.newSize? code)).getLast?.getD size

/-- The emoticon is the one that steps leave behind the last icon with the code. -/
inductive DescribedBy (steps : List Step) (code : UInt32) : Emoticon → Prop where
  | lastIcon {before after : List Step} {width height price : UInt32}
      (h : LastStep (·.iconCode? = some code) steps before (.icon code width height price) after) :
      DescribedBy steps code
        { code
          width := (lastSize code (width, height) after).1
          height := (lastSize code (width, height) after).2
          price
          category := categoryInForce before }

theorem Step.iconCode?_eq_some_iff :
    s.iconCode? = some code ↔ ∃ width height price, s = .icon code width height price := by
  cases s with
  | icon code' width height price => simp [Step.iconCode?]
  | _ => simp [Step.iconCode?]

theorem lastSize_concat (code : UInt32) (size : UInt32 × UInt32) (steps : List Step) (s : Step) :
    lastSize code size (steps ++ [s]) = (s.newSize? code).getD (lastSize code size steps) := by
  rw [lastSize, getLast?_filterMap_concat, Option.getD_or, lastSize]

/-- One more icon with the code describes the emoticon anew. -/
theorem describedBy_concat_icon_iff {width height price : UInt32} :
    DescribedBy (steps ++ [.icon code width height price]) code e
      ↔ e = ⟨code, width, height, price, categoryInForce steps⟩ := by
  constructor
  · rintro ⟨h⟩
    rcases h.concat_cases with ⟨-, rfl, hicon, rfl⟩ | ⟨hother, -⟩
    · obtain ⟨-, rfl, rfl, rfl⟩ := Step.icon.inj hicon
      rfl
    · exact absurd rfl hother
  · rintro rfl
    exact .lastIcon (lastStep_concat_self rfl)

/-- Any other step can change the size only. -/
theorem describedBy_concat_iff (hs : s.iconCode? ≠ some code) :
    DescribedBy (steps ++ [s]) code e
      ↔ ∃ old, DescribedBy steps code old ∧ e =
        { old with
          width := ((s.newSize? code).getD (old.width, old.height)).1
          height := ((s.newSize? code).getD (old.width, old.height)).2 } := by
  constructor
  · rintro ⟨h⟩
    rcases h.concat_cases with ⟨hicon, -⟩ | ⟨-, earlier, rfl, hearlier⟩
    · exact absurd hicon hs
    · refine ⟨_, .lastIcon hearlier, ?_⟩
      rw [lastSize_concat]
  · rintro ⟨old, ⟨h⟩, rfl⟩
    have hdescribed := DescribedBy.lastIcon (h.concat hs)
    rwa [lastSize_concat] at hdescribed

theorem emoticon?_eq_some_iff :
    (ofSteps steps).emoticon? code = some e ↔ DescribedBy steps code e := by
  induction steps using List.reverseRecOn generalizing e with
  | nil =>
    refine iff_of_false (Option.some_ne_none e).symm ?_
    rintro ⟨h⟩
    exact not_lastStep_nil h
  | append_singleton steps s ih =>
    rcases emoticon?_concat_cases steps s code with
      ⟨width, height, price, rfl, hstep⟩ | ⟨hicon, hstep⟩
    · rw [hstep, describedBy_concat_icon_iff, Option.some.injEq, eq_comm]
    · rw [hstep, describedBy_concat_iff hicon, Option.map_eq_some_iff]
      simp only [ih, eq_comm]

/-! ## The codes of the emoticons -/

theorem isKnown_iff_mem_filterMap :
    (ofSteps steps).isKnown code = true ↔ code ∈ steps.filterMap Step.iconCode? := by
  rw [isKnown, Option.isSome_iff_exists, List.mem_filterMap]
  constructor
  · rintro ⟨e, he⟩
    obtain ⟨h⟩ := emoticon?_eq_some_iff.1 he
    refine ⟨_, ?_, h.of_kind⟩
    rw [h.steps_eq]
    exact List.mem_append_right _ List.mem_cons_self
  · intro hicon
    obtain ⟨before, s, after, h⟩ := exists_lastStep hicon
    obtain ⟨width, height, price, rfl⟩ := Step.iconCode?_eq_some_iff.1 h.of_kind
    exact ⟨_, emoticon?_eq_some_iff.2 (.lastIcon h)⟩

theorem isKnown_iff_mem_map : r.isKnown code = true ↔ code ∈ r.emoticons.map (·.code) := by
  rw [isKnown, emoticon?, List.find?_isSome, List.mem_map]
  simp only [beq_iff_eq]

/-- No code has two emoticons. -/
theorem nodup_map_code_emoticons (steps : List Step) :
    ((ofSteps steps).emoticons.map (·.code)).Nodup := by
  induction steps using List.reverseRecOn with
  | nil => exact List.nodup_nil
  | append_singleton steps s ih =>
    rcases ofSteps_concat_cases steps s with ⟨id, minBalance, -, hstep⟩
      | ⟨code, width, height, price, -, hstep⟩ | ⟨code, width, height, -, hstep⟩
      | ⟨-, -, -, glyphs, owners, hstep⟩
    · rw [hstep]
      exact ih
    · -- the new emoticon takes the place of an earlier one with its code
      rw [hstep, addEmoticon, List.map_append, List.map_singleton]
      refine List.Nodup.append (ih.sublist (List.filter_sublist.map _)) (List.nodup_singleton _) ?_
      simp
    · rw [hstep, resize, List.map_map]
      simpa only [Function.comp_def, code_resized] using ih
    · rw [hstep]
      exact ih

theorem size_ofSteps (steps : List Step) :
    (ofSteps steps).size = (steps.filterMap Step.iconCode?).toFinset.card := by
  have hsame : ((ofSteps steps).emoticons.map (·.code)).toFinset
      = (steps.filterMap Step.iconCode?).toFinset := by
    ext code
    rw [List.mem_toFinset, List.mem_toFinset, ← isKnown_iff_mem_map, isKnown_iff_mem_filterMap]
  rw [← hsame, List.toFinset_card_of_nodup (nodup_map_code_emoticons steps), List.length_map, size]

/-! ## The list of the categories -/

theorem Step.category?_eq_some_iff :
    s.category? = some c ↔ s = .startCategory c.id c.minBalance := by
  obtain ⟨id, minBalance⟩ := c
  cases s with
  | startCategory id' minBalance' => simp [Step.category?]
  | _ => simp [Step.category?]

theorem eraseDups_concat (l : List UInt32) (a : UInt32) :
    (l ++ [a]).eraseDups = if a ∈ l then l.eraseDups else l.eraseDups ++ [a] := by
  rw [List.eraseDups_append]
  by_cases ha : a ∈ l
  · simp [ha, List.removeAll]
  · simp [ha, List.removeAll, List.eraseDups_cons]

theorem nodup_eraseDups (l : List UInt32) : l.eraseDups.Nodup := by
  induction l using List.reverseRecOn with
  | nil => exact List.nodup_nil
  | append_singleton l a ih =>
    rw [eraseDups_concat]
    by_cases ha : a ∈ l
    · rwa [if_pos ha]
    · rw [if_neg ha]
      refine ih.append (List.nodup_singleton a) ?_
      simp [ha]

theorem map_id_categories_startCategory (r : Registry) (c : Category) :
    (r.startCategory c).categories.map (·.id)
      = if c.id ∈ r.categories.map (·.id) then r.categories.map (·.id)
        else r.categories.map (·.id) ++ [c.id] := by
  have hany : r.categories.any (·.id == c.id) = true ↔ c.id ∈ r.categories.map (·.id) := by
    simp
  rw [startCategory]
  by_cases hc : c.id ∈ r.categories.map (·.id)
  · rw [if_pos (hany.2 hc), if_pos hc, List.map_map]
    simp only [Function.comp_def, id_replaced]
  · rw [if_neg (mt hany.1 hc), if_neg hc, List.map_append, List.map_singleton]

/-- The categories stand in the order of their first starts. -/
theorem map_id_categories (steps : List Step) :
    (ofSteps steps).categories.map (·.id) = (steps.filterMap Step.startedId?).eraseDups := by
  induction steps using List.reverseRecOn with
  | nil => rfl
  | append_singleton steps s ih =>
    rw [List.filterMap_append]
    rcases ofSteps_concat_cases steps s with ⟨id, minBalance, rfl, hstep⟩
      | ⟨code, width, height, price, rfl, hstep⟩ | ⟨code, width, height, rfl, hstep⟩
      | ⟨hc, -, -, glyphs, owners, hstep⟩
    · have hstarted : [Step.startCategory id minBalance].filterMap Step.startedId? = [id] := rfl
      rw [hstep, map_id_categories_startCategory, ih, hstarted, eraseDups_concat]
      simp only [List.mem_eraseDups]
    · rw [hstep]
      exact ih.trans (congrArg List.eraseDups (List.append_nil _).symm)
    · rw [hstep]
      exact ih.trans (congrArg List.eraseDups (List.append_nil _).symm)
    · have hs : s.startedId? = none := by rw [Step.startedId?, hc, Option.map_none]
      rw [hstep, List.filterMap_cons_none hs, List.filterMap_nil, List.append_nil, ih]

theorem category?_eq_some_iff :
    (ofSteps steps).category? id = some c
      ↔ ∃ before s after, LastStep (·.startedId? = some id) steps before s after
        ∧ s.category? = some c := by
  induction steps using List.reverseRecOn with
  | nil =>
    refine iff_of_false (Option.some_ne_none c).symm ?_
    rintro ⟨before, s, after, h, -⟩
    exact not_lastStep_nil h
  | append_singleton steps s ih =>
    rw [category?_concat]
    by_cases hs : s.startedId? = some id
    · rw [if_pos hs]
      constructor
      · exact fun hc => ⟨steps, s, [], lastStep_concat_self hs, hc⟩
      · rintro ⟨before, x, after, h, hc⟩
        rcases h.concat_cases with ⟨-, -, rfl, -⟩ | ⟨hother, -⟩
        · exact hc
        · exact absurd hs hother
    · rw [if_neg hs, ih]
      constructor
      · rintro ⟨before, x, after, h, hc⟩
        exact ⟨before, x, after ++ [s], h.concat hs, hc⟩
      · rintro ⟨before, x, after, h, hc⟩
        rcases h.concat_cases with ⟨hid, -⟩ | ⟨-, earlier, -, hearlier⟩
        · exact absurd hid hs
        · exact ⟨before, x, earlier, hearlier, hc⟩

/-- A listed category is the one that is found by its id. -/
theorem mem_categories_iff_category? :
    c ∈ (ofSteps steps).categories ↔ (ofSteps steps).category? c.id = some c := by
  have hnodup : ((ofSteps steps).categories.map (·.id)).Nodup := by
    rw [map_id_categories]
    exact nodup_eraseDups _
  constructor
  · intro hc
    have hsome : ((ofSteps steps).category? c.id).isSome = true :=
      List.find?_isSome.2 ⟨c, hc, beq_self_eq_true c.id⟩
    obtain ⟨found, hfound⟩ := Option.isSome_iff_exists.1 hsome
    have hid : found.id = c.id := by simpa using List.find?_some hfound
    rw [hfound, List.inj_on_of_nodup_map hnodup (List.mem_of_find?_eq_some hfound) hc hid]
  · exact fun hc => List.mem_of_find?_eq_some hc

theorem mem_categories_iff :
    c ∈ (ofSteps steps).categories ↔ ∃ before after,
      LastStep (·.startedId? = some c.id) steps before (.startCategory c.id c.minBalance)
        after := by
  rw [mem_categories_iff_category?, category?_eq_some_iff]
  simp only [Step.category?_eq_some_iff]
  constructor
  · rintro ⟨before, s, after, h, rfl⟩
    exact ⟨before, after, h⟩
  · rintro ⟨before, after, h⟩
    exact ⟨before, _, after, h, rfl⟩

/-! ## Emoticons and categories over all steps -/

/-- **Emoticons and categories.** Over all steps the known codes are those of the icons, and an
emoticon is described by the last icon with its code: a step that neither is an icon with the code
nor gives it a new size leaves the emoticon as it is. There are as many emoticons as codes, and the
started categories are listed once each, in the order of their first starts, with the balance of
their last ones. -/
theorem emoticons_and_categories_ofSteps (steps : List Step) :
    (∀ code, ((ofSteps steps).isKnown code = true
          ↔ ∃ width height price, Step.icon code width height price ∈ steps)
        ∧ (∀ e, (ofSteps steps).emoticon? code = some e ↔ DescribedBy steps code e)
        ∧ ∀ s, s.iconCode? ≠ some code → s.newSize? code = none →
          (ofSteps (steps ++ [s])).emoticon? code = (ofSteps steps).emoticon? code)
      ∧ (ofSteps steps).size = (steps.filterMap Step.iconCode?).toFinset.card
      ∧ (ofSteps steps).categories.map (·.id) = (steps.filterMap Step.startedId?).eraseDups
      ∧ ∀ c, c ∈ (ofSteps steps).categories ↔ ∃ before after,
        LastStep (·.startedId? = some c.id) steps before (.startCategory c.id c.minBalance)
          after := by
  refine ⟨fun code => ⟨?_, fun e => emoticon?_eq_some_iff, fun s hicon hsize => ?_⟩,
    size_ofSteps steps, map_id_categories steps, fun c => mem_categories_iff⟩
  · rw [isKnown_iff_mem_filterMap, List.mem_filterMap]
    simp only [Step.iconCode?_eq_some_iff]
    constructor
    · rintro ⟨s, hs, width, height, price, rfl⟩
      exact ⟨width, height, price, hs⟩
    · rintro ⟨width, height, price, hs⟩
      exact ⟨_, hs, width, height, price, rfl⟩
  · rcases emoticon?_concat_cases steps s code with ⟨width, height, price, rfl, -⟩ | ⟨-, hstep⟩
    · exact absurd rfl hicon
    · rw [hstep, hsize]
      exact Option.map_id'

/-- A new size in front of the icon and a start of the category behind it leave the emoticon
alone. -/
example : (ofSteps [.resize 5 1 1, .startCategory 6 3, .icon 5 32 32 2, .startCategory 6 9,
    .resize 5 40 48]).emoticon? 5 = some ⟨5, 40, 48, 2, ⟨6, 3⟩⟩ := by
  decide

end Registry

end ChatText
