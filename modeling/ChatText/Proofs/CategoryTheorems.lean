import ChatText.Proofs.HistoryTheorems

/-!
# Categories and the codes listed under them

An emoticon keeps the category that was in force at its last icon, and a category lists the codes of
all icons placed under it since its last start. The two are written by the same step, but an icon
that comes again takes its emoticon along and leaves the code behind in the list.

* `placedCodes_concat`, `emoticon?_concat_cases` and `category?_concat` say what one step does to
  the list of a category, to an emoticon and to the entry of a category;
* a code is listed where an icon placed it since the last start (`mem_placedCodes_iff`);
* listed codes are known (`isKnown_of_mem_codesIn`), and an emoticon that is listed in its category
  has the entry of the category (`entry_eq_of_mem_placedCodes`);
* so a listing is right exactly if none of its codes was registered once more
  (`listingAgrees_iff_placedForGood`).
-/

namespace ChatText

namespace Registry

variable {steps : List Step} {s : Step} {id code : UInt32} {c : Category} {i : Nat}

/-! ## Three views of a registry -/

/-- The codes placed under a category, in the order in which they were placed. -/
def placedCodes (r : Registry) (id : UInt32) : List UInt32 :=
  (r.placements.filter (·.category == id)).map (·.code)

/-- The category of the emoticon with the code. -/
def categoryOf? (r : Registry) (code : UInt32) : Option Category :=
  (r.emoticon? code).map (·.category)

/-- The entry of a category; one without an entry is free. -/
def entry (r : Registry) (id : UInt32) : Category := (r.category? id).getD ⟨id, 0⟩

/-- The id of the category that a step starts. -/
def Step.startedId? (s : Step) : Option UInt32 := s.category?.map (·.id)

theorem codesIn_perm (r : Registry) (id : UInt32) : (r.codesIn id).Perm (r.placedCodes id) :=
  List.mergeSort_perm _ _

theorem mem_codesIn_iff {r : Registry} : code ∈ r.codesIn id ↔ code ∈ r.placedCodes id :=
  (r.codesIn_perm id).mem_iff

/-! ## Changes of a registry -/

theorem placedCodes_startCategory (r : Registry) (c : Category) (id : UInt32) :
    (r.startCategory c).placedCodes id = if c.id = id then [] else r.placedCodes id := by
  rw [placedCodes, startCategory, List.filter_filter]
  by_cases hid : c.id = id
  · rw [if_pos hid, List.map_eq_nil_iff, List.filter_eq_nil_iff]
    intro p _
    simp [hid]
  · have hsame : ∀ p ∈ r.placements, (p.category == id && p.category != c.id)
        = (p.category == id) := by
      intro p _
      by_cases hp : p.category = id
      · simp [hp, Ne.symm hid]
      · simp [hp]
    rw [if_neg hid, List.filter_congr hsame, placedCodes]

theorem placedCodes_addEmoticon (r : Registry) (e : Emoticon) (id : UInt32) :
    (r.addEmoticon e).placedCodes id
      = r.placedCodes id ++ if e.category.id = id then [e.code] else [] := by
  rw [placedCodes, addEmoticon, List.filter_append, List.map_append, ← placedCodes]
  by_cases hid : e.category.id = id
  · simp [hid]
  · simp [hid]

/-- Putting a category in the place of the one with its id changes no id. -/
theorem id_replaced (old c : Category) : (if old.id = c.id then c else old).id = old.id := by
  by_cases hold : old.id = c.id
  · rw [if_pos hold, hold]
  · rw [if_neg hold]

/-- A started category has the entry of this start, in place of an earlier one. -/
theorem category?_startCategory (r : Registry) (c : Category) (id : UInt32) :
    (r.startCategory c).category? id = if c.id = id then some c else r.category? id := by
  have hkeep : ((·.id == id) ∘ fun old : Category => if old.id = c.id then c else old)
      = (·.id == id) := by
    funext old
    rw [Function.comp_apply, id_replaced]
  rw [category?, category?, startCategory]
  by_cases hany : r.categories.any (·.id == c.id) = true
  · rw [if_pos hany, List.find?_map, hkeep]
    by_cases hid : c.id = id
    · subst hid
      obtain ⟨old, hold⟩ :=
        Option.isSome_iff_exists.1 (List.find?_isSome.2 (List.any_eq_true.1 hany))
      have hsame : old.id = c.id := by simpa using List.find?_some hold
      rw [hold, Option.map_some, if_pos hsame, if_pos rfl]
    · rw [if_neg hid]
      cases hold : r.categories.find? (·.id == id) with
      | none => rfl
      | some old =>
        have hsame : old.id = id := by simpa using List.find?_some hold
        rw [Option.map_some, if_neg (hsame ▸ Ne.symm hid)]
  · rw [if_neg hany, List.find?_append, List.find?_singleton]
    by_cases hid : c.id = id
    · subst hid
      have hnone : r.categories.find? (·.id == c.id) = none := by simpa using hany
      rw [hnone, if_pos rfl, if_pos (beq_self_eq_true c.id), Option.none_or]
    · rw [if_neg hid, if_neg (by simpa using hid), Option.or_none]

/-- An emoticon is found in place of an earlier one with its code. -/
theorem emoticon?_addEmoticon (r : Registry) (e : Emoticon) (code : UInt32) :
    (r.addEmoticon e).emoticon? code = if e.code = code then some e else r.emoticon? code := by
  rw [emoticon?, emoticon?, addEmoticon, List.find?_append, List.find?_filter, List.find?_singleton]
  by_cases hcode : e.code = code
  · subst hcode
    have hnone : r.emoticons.find? (fun a => decide ((a.code != e.code) = true
        ∧ (a.code == e.code) = true)) = none := by simp
    rw [hnone, if_pos rfl, if_pos (beq_self_eq_true e.code), Option.none_or]
  · have hkeep : (fun a : Emoticon => decide ((a.code != e.code) = true ∧ (a.code == code) = true))
        = fun a => a.code == code := by
      funext a
      by_cases ha : a.code = code
      · simp [ha, Ne.symm hcode]
      · simp [ha]
    rw [if_neg hcode, if_neg (by simpa using hcode), Option.or_none, hkeep]

/-- A new size changes no code. -/
theorem code_resized (e : Emoticon) (code width height : UInt32) :
    (if e.code = code then { e with width := width, height := height } else e).code = e.code := by
  split <;> rfl

/-- A new size goes to the emoticon with the code. -/
theorem emoticon?_resize (r : Registry) (code' width height code : UInt32) :
    (r.resize code' width height).emoticon? code
      = if code' = code then
          (r.emoticon? code).map fun e => { e with width := width, height := height }
        else r.emoticon? code := by
  have hkeep : ((·.code == code) ∘ fun e : Emoticon =>
      if e.code = code' then { e with width := width, height := height } else e)
      = (·.code == code) := by
    funext e
    rw [Function.comp_apply, code_resized]
  rw [emoticon?, resize, List.find?_map, hkeep, ← emoticon?]
  cases hfound : r.emoticon? code with
  | none => split <;> rfl
  | some e =>
    have hcode : e.code = code := by simpa using List.find?_some hfound
    rw [Option.map_some, Option.map_some, hcode]
    by_cases hsame : code' = code
    · rw [if_pos hsame, if_pos hsame.symm]
    · rw [if_neg hsame, if_neg (Ne.symm hsame)]

/-- The glyphs are kept apart from everything else. -/
theorem exists_registerGlyph_eq (r : Registry) (g : Text) (code : UInt32) :
    ∃ glyphs owners, r.registerGlyph g code = { r with glyphs := glyphs, owners := owners } := by
  by_cases hempty : g = []
  · rw [hempty, registerGlyph_nil]
    exact ⟨r.glyphs, r.owners, rfl⟩
  · rcases registerGlyph_cases r hempty code with ⟨-, hr⟩ | ⟨-, hr⟩ | ⟨owner, -, -, hr⟩
    · exact ⟨_, _, hr⟩
    · exact ⟨r.glyphs, r.owners, hr⟩
    · exact ⟨_, _, hr⟩

/-! ## What a step does -/

/-- A step starts a category, or registers an icon under the category in force, or gives a code a
new size, or leaves all but the glyphs alone. -/
theorem ofSteps_concat_cases (steps : List Step) (s : Step) :
    (∃ id minBalance, s = .startCategory id minBalance
        ∧ ofSteps (steps ++ [s]) = (ofSteps steps).startCategory ⟨id, minBalance⟩)
      ∨ (∃ code width height price, s = .icon code width height price
        ∧ ofSteps (steps ++ [s])
          = (ofSteps steps).addEmoticon ⟨code, width, height, price, categoryInForce steps⟩)
      ∨ (∃ code width height, s = .resize code width height
        ∧ ofSteps (steps ++ [s]) = (ofSteps steps).resize code width height)
      ∨ (s.category? = none ∧ s.iconCode? = none ∧ (∀ code, s.newSize? code = none)
        ∧ ∃ glyphs owners, ofSteps (steps ++ [s])
          = { ofSteps steps with glyphs := glyphs, owners := owners }) := by
  rw [ofSteps_concat]
  cases s with
  | startCategory id minBalance => exact Or.inl ⟨id, minBalance, rfl, rfl⟩
  | icon code width height price =>
    rw [← category_ofSteps]
    exact Or.inr (Or.inl ⟨code, width, height, price, rfl, rfl⟩)
  | resize code width height => exact Or.inr (Or.inr (Or.inl ⟨code, width, height, rfl, rfl⟩))
  | register g code =>
    refine Or.inr (Or.inr (Or.inr ⟨rfl, rfl, fun _ => rfl, ?_⟩))
    exact exists_registerGlyph_eq (ofSteps steps) g code
  | glyph g =>
    refine Or.inr (Or.inr (Or.inr ⟨rfl, rfl, fun _ => rfl, ?_⟩))
    rw [Draft.step]
    cases (Draft.ofSteps steps).icon? with
    | none => exact ⟨(ofSteps steps).glyphs, (ofSteps steps).owners, rfl⟩
    | some code => exact exists_registerGlyph_eq (ofSteps steps) g code

/-- The start of a category empties its list, and an icon is put behind the list of the category in
force. -/
theorem placedCodes_concat (steps : List Step) (s : Step) (id : UInt32) :
    (ofSteps (steps ++ [s])).placedCodes id
      = if s.startedId? = some id then []
        else (ofSteps steps).placedCodes id
          ++ if (categoryInForce steps).id = id then s.iconCode?.toList else [] := by
  rcases ofSteps_concat_cases steps s with ⟨id', minBalance, rfl, hstep⟩
    | ⟨code, width, height, price, rfl, hstep⟩ | ⟨code, width, height, rfl, hstep⟩
    | ⟨hc, hicon, -, glyphs, owners, hstep⟩
  · rw [hstep, placedCodes_startCategory]
    simp [Step.startedId?, Step.category?, Step.iconCode?]
  · rw [hstep, placedCodes_addEmoticon]
    simp [Step.startedId?, Step.category?, Step.iconCode?]
  · rw [hstep]
    simp [Step.startedId?, Step.category?, Step.iconCode?, placedCodes, resize]
  · rw [hstep, Step.startedId?, hc, hicon]
    simp [placedCodes]

/-- An icon is described anew, a new size changes the size, and nothing else changes an emoticon. -/
theorem emoticon?_concat_cases (steps : List Step) (s : Step) (code : UInt32) :
    (∃ width height price, s = .icon code width height price
        ∧ (ofSteps (steps ++ [s])).emoticon? code
          = some ⟨code, width, height, price, categoryInForce steps⟩)
      ∨ s.iconCode? ≠ some code
        ∧ (ofSteps (steps ++ [s])).emoticon? code = ((ofSteps steps).emoticon? code).map fun e =>
          { e with
            width := ((s.newSize? code).getD (e.width, e.height)).1
            height := ((s.newSize? code).getD (e.width, e.height)).2 } := by
  rcases ofSteps_concat_cases steps s with ⟨id', minBalance, rfl, hstep⟩
    | ⟨code', width, height, price, rfl, hstep⟩ | ⟨code', width, height, rfl, hstep⟩
    | ⟨-, hicon, hsize, glyphs, owners, hstep⟩
  · refine Or.inr ⟨(Option.some_ne_none code).symm, ?_⟩
    rw [hstep]
    exact Option.map_id'.symm
  · rw [hstep, emoticon?_addEmoticon]
    by_cases hcode : code' = code
    · subst hcode
      exact Or.inl ⟨width, height, price, rfl, if_pos rfl⟩
    · refine Or.inr ⟨fun hicon => hcode (Option.some.inj hicon), ?_⟩
      rw [if_neg hcode]
      exact Option.map_id'.symm
  · refine Or.inr ⟨(Option.some_ne_none code).symm, ?_⟩
    rw [hstep, emoticon?_resize, Step.newSize?]
    by_cases hcode : code' = code
    · rw [if_pos hcode, if_pos hcode]
      rfl
    · rw [if_neg hcode, if_neg hcode]
      exact Option.map_id'.symm
  · refine Or.inr ⟨by rw [hicon]; exact (Option.some_ne_none code).symm, ?_⟩
    rw [hstep, hsize]
    exact Option.map_id'.symm

/-- An icon has the category in force. -/
theorem categoryOf?_concat (steps : List Step) (s : Step) (code : UInt32) :
    (ofSteps (steps ++ [s])).categoryOf? code
      = if s.iconCode? = some code then some (categoryInForce steps)
        else (ofSteps steps).categoryOf? code := by
  rw [categoryOf?]
  rcases emoticon?_concat_cases steps s code with
    ⟨width, height, price, rfl, hstep⟩ | ⟨hicon, hstep⟩
  · rw [hstep]
    exact (if_pos rfl).symm
  · rw [hstep, if_neg hicon, Option.map_map]
    rfl

/-- A category has the entry of its last start. -/
theorem category?_concat (steps : List Step) (s : Step) (id : UInt32) :
    (ofSteps (steps ++ [s])).category? id
      = if s.startedId? = some id then s.category? else (ofSteps steps).category? id := by
  rcases ofSteps_concat_cases steps s with ⟨id', minBalance, rfl, hstep⟩
    | ⟨code, width, height, price, rfl, hstep⟩ | ⟨code, width, height, rfl, hstep⟩
    | ⟨hc, -, -, glyphs, owners, hstep⟩
  · rw [hstep, category?_startCategory]
    simp [Step.startedId?, Step.category?]
  · rw [hstep]
    rfl
  · rw [hstep]
    rfl
  · rw [hstep, Step.startedId?, hc]
    rfl

/-! ## Where codes are listed -/

/-- The step is an icon with the code. -/
def NamesIcon (code : UInt32) (_before : List Step) (s : Step) : Prop := s.iconCode? = some code

/-- The step is an icon with the code, and the category is in force. -/
def Places (id code : UInt32) (before : List Step) (s : Step) : Prop :=
  s.iconCode? = some code ∧ (categoryInForce before).id = id

/-- The icon at position `i` places the code under the category, which is not started again. -/
def PlacedAt (steps : List Step) (id code : UInt32) (i : Nat) : Prop :=
  HappensAt (Places id code) steps i
    ∧ ∀ j, HappensAt (fun _ s => s.startedId? = some id) steps j → j < i

theorem startedId?_eq_none (h : s.iconCode? = some code) : s.startedId? = none := by
  cases s with
  | icon code width height price => rfl
  | _ => cases h

theorem placedAt_concat_iff :
    PlacedAt (steps ++ [s]) id code i
      ↔ s.startedId? ≠ some id ∧ PlacedAt steps id code i
        ∨ i = steps.length ∧ Places id code steps s := by
  simp only [PlacedAt, happensAt_concat_iff]
  constructor
  · rintro ⟨hplaces | hlast, hstarts⟩
    · refine Or.inl ⟨fun hs => ?_, hplaces, fun j hj => hstarts j (Or.inl hj)⟩
      exact Nat.lt_asymm hplaces.lt_length (hstarts _ (Or.inr ⟨rfl, hs⟩))
    · exact Or.inr hlast
  · rintro (⟨hs, hplaces, hstarts⟩ | ⟨rfl, hplaces⟩)
    · refine ⟨Or.inl hplaces, ?_⟩
      rintro j (hj | ⟨-, hj⟩)
      · exact hstarts j hj
      · exact absurd hj hs
    · refine ⟨Or.inr ⟨rfl, hplaces⟩, ?_⟩
      rintro j (hj | ⟨-, hj⟩)
      · exact hj.lt_length
      · rw [startedId?_eq_none hplaces.1] at hj
        cases hj

theorem mem_placedCodes_concat_iff :
    code ∈ (ofSteps (steps ++ [s])).placedCodes id
      ↔ s.startedId? ≠ some id ∧ code ∈ (ofSteps steps).placedCodes id
        ∨ Places id code steps s := by
  rw [placedCodes_concat]
  by_cases hs : s.startedId? = some id
  · have hicon : ¬ Places id code steps s := fun hplaces => by
      rw [startedId?_eq_none hplaces.1] at hs
      cases hs
    simp [hs, hicon]
  · rw [if_neg hs, List.mem_append]
    by_cases hid : (categoryInForce steps).id = id
    · simp [hs, hid, Places]
    · simp [hs, hid, Places]

/-- A category lists the codes that icons have placed under it since its last start. -/
theorem mem_placedCodes_iff :
    code ∈ (ofSteps steps).placedCodes id ↔ ∃ i, PlacedAt steps id code i := by
  induction steps using List.reverseRecOn with
  | nil =>
    refine iff_of_false (by simp [ofSteps, Draft.ofSteps, empty, placedCodes]) ?_
    rintro ⟨i, hi, -⟩
    exact not_happensAt_nil _ i hi
  | append_singleton steps s ih =>
    rw [mem_placedCodes_concat_iff, ih]
    simp only [placedAt_concat_iff, exists_or, exists_and_left, exists_eq_left]

/-- The known codes are those of the icons. -/
theorem categoryOf?_isSome_iff :
    ((ofSteps steps).categoryOf? code).isSome = true ↔ ∃ i, HappensAt (NamesIcon code) steps i := by
  induction steps using List.reverseRecOn with
  | nil =>
    refine iff_of_false (by simp [ofSteps, Draft.ofSteps, empty, categoryOf?, emoticon?]) ?_
    rintro ⟨i, hi⟩
    exact not_happensAt_nil _ i hi
  | append_singleton steps s ih =>
    simp only [happensAt_concat_iff, exists_or, ← ih, exists_eq_left]
    rw [categoryOf?_concat]
    by_cases hicon : s.iconCode? = some code
    · simp [hicon, NamesIcon]
    · simp [hicon, NamesIcon]

/-- Listed codes are known. -/
theorem isKnown_of_mem_codesIn (h : code ∈ (ofSteps steps).codesIn id) :
    (ofSteps steps).isKnown code = true := by
  obtain ⟨i, hplaces, -⟩ := mem_placedCodes_iff.1 (mem_codesIn_iff.1 h)
  have hknown := categoryOf?_isSome_iff.2 ⟨i, hplaces.mono fun _ _ hplaces => hplaces.1⟩
  rwa [categoryOf?, Option.isSome_map] at hknown

/-! ## Entries -/

theorem entry_concat_of_not (h : s.startedId? ≠ some id) :
    (ofSteps (steps ++ [s])).entry id = (ofSteps steps).entry id := by
  rw [entry, category?_concat, if_neg h, entry]

/-- The category in force has its own entry. -/
theorem entry_categoryInForce (steps : List Step) :
    (ofSteps steps).entry (categoryInForce steps).id = categoryInForce steps := by
  induction steps using List.reverseRecOn with
  | nil => rfl
  | append_singleton steps s ih =>
    rw [categoryInForce_concat]
    cases hc : s.category? with
    | none =>
      rw [Option.getD_none, entry_concat_of_not (by simp [Step.startedId?, hc]), ih]
    | some c =>
      rw [Option.getD_some, entry, category?_concat, if_pos (by simp [Step.startedId?, hc]), hc,
        Option.getD_some]

/-- An emoticon that is listed in its own category has the entry of the category. -/
theorem entry_eq_of_mem_placedCodes (h : code ∈ (ofSteps steps).placedCodes id)
    (hc : (ofSteps steps).categoryOf? code = some c) (hid : c.id = id) :
    (ofSteps steps).entry id = c := by
  induction steps using List.reverseRecOn with
  | nil => cases h
  | append_singleton steps s ih =>
    rw [categoryOf?_concat] at hc
    by_cases hs : s.startedId? = some id
    · rw [placedCodes_concat, if_pos hs] at h
      cases h
    · rw [entry_concat_of_not hs]
      -- the emoticon has the category in force at the last icon with its code
      by_cases hicon : s.iconCode? = some code
      · rw [if_pos hicon, Option.some.injEq] at hc
        rw [← hid, ← hc, entry_categoryInForce]
      · rw [if_neg hicon] at hc
        rcases mem_placedCodes_concat_iff.1 h with ⟨-, hold⟩ | hplaces
        · exact ih hold hc
        · exact absurd hplaces.1 hicon

/-- A category has an entry once it was started. -/
theorem category?_isSome_iff :
    ((ofSteps steps).category? id).isSome = true
      ↔ ∃ minBalance, Step.startCategory id minBalance ∈ steps := by
  induction steps using List.reverseRecOn with
  | nil => simp [ofSteps, Draft.ofSteps, empty, category?]
  | append_singleton steps s ih =>
    simp only [List.mem_append, List.mem_singleton, exists_or, ← ih]
    rw [category?_concat]
    cases s with
    | startCategory id' minBalance =>
      by_cases hid : id' = id
      · simp [hid, Step.startedId?, Step.category?]
      · simp [hid, Ne.symm hid, Step.startedId?, Step.category?]
    | _ => simp [Step.startedId?, Step.category?]

/-! ## Listings that agree with the emoticons -/

/-- The listing of a category is right: no code comes twice, and the emoticon of each code is in the
category, with its entry if the category was started. -/
def ListingAgrees (steps : List Step) (id : UInt32) : Prop :=
  ((ofSteps steps).codesIn id).Nodup
    ∧ ∀ code ∈ (ofSteps steps).codesIn id, ∃ e, (ofSteps steps).emoticon? code = some e
      ∧ e.category.id = id
      ∧ ((∃ minBalance, Step.startCategory id minBalance ∈ steps) →
          (ofSteps steps).category? id = some e.category)

/-- The icons behind the listing of a category are the last ones with their codes. -/
def PlacedForGood (steps : List Step) (id : UInt32) : Prop :=
  ∀ code i j, PlacedAt steps id code i → HappensAt (NamesIcon code) steps j → j ≤ i

/-- No code is placed twice, and the emoticons of the placed codes are in the category. -/
def KeepsPlaces (r : Registry) (id : UInt32) : Prop :=
  (r.placedCodes id).Nodup
    ∧ ∀ code ∈ r.placedCodes id, (r.categoryOf? code).map (·.id) = some id

/-- The entries are right wherever the ids are. -/
theorem listingAgrees_iff_keepsPlaces :
    ListingAgrees steps id ↔ (ofSteps steps).KeepsPlaces id := by
  rw [ListingAgrees, KeepsPlaces, (codesIn_perm _ id).nodup_iff]
  refine and_congr_right fun _ => forall_congr' fun code => ?_
  rw [mem_codesIn_iff]
  refine imp_congr_right fun hmem => ?_
  constructor
  · rintro ⟨e, he, hid, -⟩
    rw [categoryOf?, he, Option.map_some, Option.map_some, hid]
  · intro hid
    rw [categoryOf?, Option.map_map, Option.map_eq_some_iff] at hid
    obtain ⟨e, he, hid⟩ := hid
    refine ⟨e, he, hid, fun hstarted => ?_⟩
    have hentry := entry_eq_of_mem_placedCodes hmem (by rw [categoryOf?, he]; rfl) hid
    obtain ⟨c, hc⟩ := Option.isSome_iff_exists.1 (category?_isSome_iff.2 hstarted)
    rw [entry, hc, Option.getD_some] at hentry
    rw [hc, hentry]

theorem nodup_placedCodes_concat_iff (hs : s.startedId? ≠ some id) :
    ((ofSteps (steps ++ [s])).placedCodes id).Nodup
      ↔ ((ofSteps steps).placedCodes id).Nodup
        ∧ ∀ code ∈ (ofSteps steps).placedCodes id, ¬ Places id code steps s := by
  rw [placedCodes_concat, if_neg hs, List.nodup_append]
  refine and_congr_right fun _ => ?_
  by_cases hid : (categoryInForce steps).id = id
  · cases hicon : s.iconCode? with
    | none => simp [hid, hicon, Places]
    | some new => simp [hid, hicon, Places, eq_comm]
  · simp [hid, Places]

/-- An icon spoils the earlier places of its code. -/
theorem keepsPlaces_concat_iff :
    (ofSteps (steps ++ [s])).KeepsPlaces id
      ↔ s.startedId? = some id
        ∨ (ofSteps steps).KeepsPlaces id
          ∧ ∀ code ∈ (ofSteps steps).placedCodes id, s.iconCode? ≠ some code := by
  by_cases hs : s.startedId? = some id
  · refine iff_of_true ?_ (Or.inl hs)
    rw [KeepsPlaces, placedCodes_concat, if_pos hs]
    exact ⟨List.nodup_nil, fun code hcode => absurd hcode List.not_mem_nil⟩
  · rw [or_iff_right hs, KeepsPlaces, nodup_placedCodes_concat_iff hs]
    simp only [mem_placedCodes_concat_iff, categoryOf?_concat]
    constructor
    · rintro ⟨⟨hnodup, hplaces⟩, hcodes⟩
      have hother : ∀ code ∈ (ofSteps steps).placedCodes id, s.iconCode? ≠ some code := by
        -- under another category the icon would take the code away, under this one list it again
        intro code hcode hicon
        have hid := hcodes code (Or.inl ⟨hs, hcode⟩)
        rw [if_pos hicon, Option.map_some, Option.some.injEq] at hid
        exact hplaces code hcode ⟨hicon, hid⟩
      refine ⟨⟨hnodup, fun code hcode => ?_⟩, hother⟩
      rw [← hcodes code (Or.inl ⟨hs, hcode⟩), if_neg (hother code hcode)]
    · rintro ⟨⟨hnodup, hcodes⟩, hother⟩
      refine ⟨⟨hnodup, fun code hcode hplaces => hother code hcode hplaces.1⟩, ?_⟩
      rintro code (⟨-, hcode⟩ | hplaces)
      · rw [if_neg (hother code hcode), hcodes code hcode]
      · rw [if_pos hplaces.1, Option.map_some, hplaces.2]

theorem placedForGood_concat_iff :
    PlacedForGood (steps ++ [s]) id
      ↔ s.startedId? = some id
        ∨ PlacedForGood steps id
          ∧ ∀ code ∈ (ofSteps steps).placedCodes id, s.iconCode? ≠ some code := by
  simp only [PlacedForGood, placedAt_concat_iff, happensAt_concat_iff, mem_placedCodes_iff]
  constructor
  · intro h
    by_cases hs : s.startedId? = some id
    · exact Or.inl hs
    · refine Or.inr ⟨fun code i j hplaced hnamed => ?_, ?_⟩
      · exact h code i j (Or.inl ⟨hs, hplaced⟩) (Or.inl hnamed)
      · rintro code ⟨i, hplaced⟩ hicon
        have hle := h code i steps.length (Or.inl ⟨hs, hplaced⟩) (Or.inr ⟨rfl, hicon⟩)
        exact Nat.lt_irrefl _ (Nat.lt_of_lt_of_le hplaced.1.lt_length hle)
  · rintro h code i j (⟨hs, hplaced⟩ | ⟨rfl, -⟩) hnamed
    · obtain ⟨hgood, hother⟩ := h.resolve_left hs
      rcases hnamed with hnamed | ⟨-, hicon⟩
      · exact hgood code i j hplaced hnamed
      · exact absurd hicon (hother code ⟨i, hplaced⟩)
    · rcases hnamed with hnamed | ⟨rfl, -⟩
      · exact Nat.le_of_lt hnamed.lt_length
      · exact Nat.le_refl _

/-- **Right listings.** The listing of a category is right exactly if no icon behind it came again:
one that comes again in the same category is listed twice, and one that comes again in another is
still listed here. -/
theorem listingAgrees_iff_placedForGood (steps : List Step) (id : UInt32) :
    ListingAgrees steps id ↔ PlacedForGood steps id := by
  rw [listingAgrees_iff_keepsPlaces]
  induction steps using List.reverseRecOn with
  | nil =>
    refine iff_of_true ⟨List.nodup_nil, fun code hcode => absurd hcode List.not_mem_nil⟩ ?_
    exact fun code i j hplaced _ => absurd hplaced.1 (not_happensAt_nil _ i)
  | append_singleton steps s ih => rw [keepsPlaces_concat_iff, placedForGood_concat_iff, ih]

/-- An icon that moved to a category for richer wallets is still listed in the free one. -/
theorem not_listingAgrees_moved_icon :
    ¬ ListingAgrees
        [.startCategory 1 0, .icon 5 16 16 0, .startCategory 2 7, .icon 5 16 16 3] 1 := by
  rintro ⟨-, hcodes⟩
  obtain ⟨e, he, hid, -⟩ := hcodes 5 (mem_codesIn_iff.2 (by decide))
  have hmoved : e = ⟨5, 16, 16, 3, ⟨2, 7⟩⟩ := Option.some.inj (he.symm.trans (by decide))
  rw [hmoved] at hid
  exact absurd hid (by decide)

end Registry

end ChatText
