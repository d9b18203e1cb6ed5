import ChatText.Markup.Scan

/-!
# The slices of a markup scan

A scan reports its events for consecutive slices of the text. `slices` lists them with their
sources, `flatten_slices` says that the sources are the text, and `scan_eq_forM` that the scan does
nothing but show the events of the slices to the visitor, in order and whatever the visitor does.
-/

namespace ChatText
namespace Markup

/-! ## Tags and the texts they stand for -/

/-- Small letters come from capitals, every other symbol from itself. -/
theorem toLower_cases (c : Char) :
    c.toLower = c ∨ 65 ≤ c.toNat ∧ c.toNat ≤ 90 ∧ c.toLower.toNat = c.toNat + 32 := by
  by_cases hupper : c.val ≥ 'A'.val ∧ c.val ≤ 'Z'.val
  · have hrange : 65 ≤ c.toNat ∧ c.toNat ≤ 90 := by
      simpa [UInt32.le_iff_toNat_le] using hupper
    refine Or.inr ⟨hrange.1, hrange.2, ?_⟩
    have hlower : c.toLower.val = c.val + ('a'.val - 'A'.val) :=
      congrArg Char.val (dif_pos hupper)
    have hshift : ('a'.val - 'A'.val).toNat = 32 := by decide
    have hval : c.val.toNat = c.toNat := rfl
    rw [Char.toNat, hlower, UInt32.toNat_add, hshift]
    omega
  · exact Or.inl (dif_neg hupper)

/-- The texts are the same but for ASCII case. -/
def EqUpToCase (s t : Text) : Prop := s.map Char.toLower = t.map Char.toLower

/-- A text starts with a tag if its first symbols are the tag up to case. -/
theorem startsWithTag_iff {tag t : Text} :
    startsWithTag tag t = true ↔ EqUpToCase (t.take tag.length) tag := by
  induction tag generalizing t with
  | nil => simp [startsWithTag, EqUpToCase]
  | cons a tag ih =>
    cases t with
    | nil => simp [startsWithTag, EqUpToCase]
    | cons c t =>
      have ih' : startsWithTag tag t = true ↔ EqUpToCase (t.take tag.length) tag := ih
      simp only [EqUpToCase] at ih' ⊢
      rw [startsWithTag, Bool.and_eq_true, ih', beq_iff_eq, List.length_cons, List.take_succ_cons,
        List.map_cons, List.map_cons, List.cons.injEq]
      exact and_congr_left fun _ => eq_comm

/-- A tag that a text starts with is there whatever follows. -/
theorem startsWithTag_append {tag t : Text} (h : startsWithTag tag t = true) (rest : Text) :
    startsWithTag tag (t ++ rest) = true := by
  have hle := length_le_of_startsWithTag h
  rw [startsWithTag_iff] at h ⊢
  rwa [List.take_append_of_le_length hle]

/-- What is found before, in and behind the first block. -/
theorem of_find_block {tags : Tags} {t before source after : Text}
    (h : find tags t = .block before source after) :
    before ++ (source ++ after) = t ∧ startsWithTag tags.opening (source ++ after) = true
      ∧ ∃ inside closing, source = inside ++ closing ∧ EqUpToCase closing tags.closing := by
  obtain ⟨rest, inside, closed, hopen, hclose, rfl, rfl⟩ := splitAtTag_of_find_block h
  have hrest : inside ++ closed.take tags.closing.length ++ closed.drop tags.closing.length
      = rest := by
    rw [List.append_assoc, List.take_append_drop, append_of_splitAtTag hclose]
  refine ⟨?_, ?_, inside, _, rfl, ?_⟩
  · rw [hrest, append_of_splitAtTag hopen]
  · rw [hrest]
    exact startsWithTag_of_splitAtTag hopen
  · exact startsWithTag_iff.1 (startsWithTag_of_splitAtTag hclose)

/-- What is found before and behind an opening tag that is never closed. -/
theorem of_find_unterminated {tags : Tags} {t before after : Text}
    (h : find tags t = .unterminated before after) :
    ∃ opening, before ++ (opening ++ after) = t ∧ EqUpToCase opening tags.opening := by
  obtain ⟨rest, hopen, -, rfl⟩ := splitAtTag_of_find_unterminated h
  refine ⟨rest.take tags.opening.length, ?_, ?_⟩
  · rw [List.take_append_drop, append_of_splitAtTag hopen]
  · exact startsWithTag_iff.1 (startsWithTag_of_splitAtTag hopen)

/-! ## Slices -/

/-- A stretch of a text that a scan reports one event for. -/
inductive Slice where
  | plain (source : Text)
  | block (source : Text)
  /-- An opening tag that is never closed. -/
  | opening (source : Text)
  deriving DecidableEq, Repr

namespace Slice

/-- The symbols of the slice. -/
def source : Slice → Text
  | plain s => s
  | block s => s
  | opening s => s

/-- What is reported for the slice. -/
def event : Slice → Event
  | plain s => .plain s
  | block s => .block (spaceNewlines s)
  | opening _ => .unterminated

end Slice

/-- The slices of a text, for tags of which the closing one is not empty. -/
def sliceBlocks (tags : Tags) (hclosing : tags.closing ≠ []) (t : Text) : List Slice :=
  match _h : find tags t with
  | .nothing => [.plain t]
  | .unterminated before after =>
    [.plain before, .opening ((t.drop before.length).take tags.opening.length), .plain after]
  | .block before source after =>
    .plain before :: .block source :: sliceBlocks tags hclosing after
termination_by t.length
decreasing_by exact length_lt_of_find_block hclosing _h

theorem Tags.closing_ne_nil {tags : Tags} (h : ¬ (tags.opening = [] ∨ tags.closing = [])) :
    tags.closing ≠ [] := fun hclosing => h (.inr hclosing)

/-- The slices of a text. With an empty tag there is one. -/
def slices (tags : Tags) (t : Text) : List Slice :=
  if h : tags.opening = [] ∨ tags.closing = [] then [.plain t]
  else sliceBlocks tags (Tags.closing_ne_nil h) t

theorem flatMap_source_sliceBlocks {tags : Tags} (hclosing : tags.closing ≠ []) (t : Text) :
    (sliceBlocks tags hclosing t).flatMap Slice.source = t := by
  fun_induction sliceBlocks tags hclosing t with
  | case1 t h => simp [Slice.source]
  | case2 t before after h =>
    obtain ⟨opening, htext, hopening⟩ := of_find_unterminated h
    have hlen : opening.length = tags.opening.length := by
      simpa using congrArg List.length hopening
    rw [← htext, List.drop_left, ← hlen, List.take_left]
    simp [Slice.source]
  | case3 t before source after h ih =>
    rw [List.flatMap_cons, List.flatMap_cons, ih]
    exact (of_find_block h).1

/-- The sources of the slices are the text. -/
theorem flatMap_source_slices (tags : Tags) (t : Text) :
    (slices tags t).flatMap Slice.source = t := by
  rw [slices]
  split
  · simp [Slice.source]
  · exact flatMap_source_sliceBlocks _ t

/-! ## What the visitor sees -/

variable {m : Type → Type} [Monad m] [LawfulMonad m]

theorem scanBlocks_eq_forM {tags : Tags} (hclosing : tags.closing ≠ []) (visit : Event → m Unit)
    (t : Text) :
    scanBlocks tags hclosing visit t
      = forM (sliceBlocks tags hclosing t) fun s => visit s.event := by
  fun_induction sliceBlocks tags hclosing t with
  | case1 t h =>
    rw [scanBlocks]
    split <;> simp_all [Slice.event]
  | case2 t before after h =>
    rw [scanBlocks]
    split <;> simp_all [Slice.event]
  | case3 t before source after h ih =>
    rw [scanBlocks]
    split <;> simp_all [Slice.event]

/-- A scan shows the events of the slices to the visitor, one after the other. -/
theorem scan_eq_forM (tags : Tags) (visit : Event → m Unit) (t : Text) :
    scan tags visit t = forM (slices tags t) fun s => visit s.event := by
  rw [scan, slices]
  split
  · simp [Slice.event]
  · exact scanBlocks_eq_forM _ visit t

end Markup
end ChatText
