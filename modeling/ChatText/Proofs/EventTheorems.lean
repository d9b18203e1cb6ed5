import ChatText.Proofs.MarkupSlices

/-!
# What the events of a markup scan stand for

`Division` is a text as plain parts and blocks, and `Division.IsAt` says, by positions in the whole
text, that it is divided at its tags: where each block starts and ends, and when an opening tag is
left unclosed. The scan looks for tags in what is left of the text. What it finds there is carried
over to positions in the whole one block at a time (`Division.IsAt.cons`), and so the events of a
text are the events of such a division (`exists_division_events`).
-/

namespace ChatText
namespace Markup

/-! ## Where a tag stands -/

/-- The tag stands in the text from position `i` on, up to case. -/
def OccursAt (tag t : Text) (i : Nat) : Prop := EqUpToCase ((t.drop i).take tag.length) tag

/-- Of the positions from `start` on, `i` is the first one at which the tag stands. -/
def FirstFrom (tag t : Text) (start i : Nat) : Prop :=
  start ≤ i ∧ OccursAt tag t i ∧ ∀ j, start ≤ j → j < i → ¬ OccursAt tag t j

variable {tags : Tags} {tag t : Text} {start i j : Nat}

theorem occursAt_iff : OccursAt tag t i ↔ startsWithTag tag (t.drop i) = true :=
  startsWithTag_iff.symm

theorem occursAt_drop : OccursAt tag (t.drop start) i ↔ OccursAt tag t (start + i) := by
  unfold OccursAt
  rw [List.drop_drop]

theorem occursAt_iff_drop (h : start ≤ i) :
    OccursAt tag t i ↔ OccursAt tag (t.drop start) (i - start) := by
  rw [occursAt_drop, Nat.add_sub_cancel' h]

/-- A tag that stands where another one stands, stands in that other one. -/
theorem OccursAt.of_within {tag' : Text} (h : OccursAt tag t i) (h' : OccursAt tag' t j)
    (hij : i ≤ j) (hend : j + tag'.length ≤ i + tag.length) : OccursAt tag' tag (j - i) := by
  unfold OccursAt EqUpToCase at h h' ⊢
  have hpart :
      ((t.drop i).take tag.length).drop (j - i) = (t.drop j).take (tag.length - (j - i)) := by
    rw [List.drop_take, List.drop_drop, Nat.add_sub_cancel' hij]
  rw [← h', List.map_take, List.map_drop, ← h, ← List.map_drop, hpart, ← List.map_take,
    List.take_take, Nat.min_eq_left (by omega)]

/-- Positions behind a point of the text, counted from there or from the start of the text. -/
theorem FirstFrom.of_drop {s : Nat} (h : FirstFrom tag (t.drop s) start i) :
    FirstFrom tag t (s + start) (s + i) := by
  obtain ⟨hle, hi, hfirst⟩ := h
  refine ⟨by omega, occursAt_drop.1 hi, fun j hj hlt hoccurs => ?_⟩
  rw [occursAt_iff_drop (by omega : s ≤ j)] at hoccurs
  exact hfirst (j - s) (by omega) (by omega) hoccurs

/-! ## Looking for a tag -/

/-- A tag is split off at its first occurrence. -/
theorem firstFrom_of_splitAtTag {before rest : Text}
    (h : splitAtTag tag t = some (before, rest)) : FirstFrom tag t 0 before.length := by
  have happend := append_of_splitAtTag h
  refine ⟨Nat.zero_le _, ?_, ?_⟩
  · rw [occursAt_iff, ← happend, List.drop_left]
    exact startsWithTag_of_splitAtTag h
  · -- at each symbol before the split the tag was looked for in vain
    intro i _ hi
    rw [occursAt_iff]
    clear happend
    induction t generalizing before i with
    | nil =>
      simp only [splitAtTag, Option.ite_none_right_eq_some, Option.some.injEq, Prod.mk.injEq] at h
      rw [← h.2.1] at hi
      exact absurd hi (Nat.not_lt_zero i)
    | cons c t ih =>
      rw [splitAtTag] at h
      split at h
      · simp only [Option.some.injEq, Prod.mk.injEq] at h
        rw [← h.1] at hi
        exact absurd hi (Nat.not_lt_zero i)
      · rename_i hstart
        simp only [Option.map_eq_some_iff, Prod.exists, Prod.mk.injEq] at h
        obtain ⟨b, r, hsplit, rfl, rfl⟩ := h
        cases i with
        | zero => exact hstart
        | succ i =>
          rw [List.drop_succ_cons]
          rw [List.length_cons] at hi
          exact ih hsplit i (Nat.zero_le i) (by omega)

/-- A tag that is not split off stands nowhere. -/
theorem not_occursAt_of_splitAtTag (h : splitAtTag tag t = none) : ¬ OccursAt tag t i := by
  rw [occursAt_iff]
  induction t generalizing i with
  | nil =>
    rw [splitAtTag, ite_eq_right_iff] at h
    cases tag with
    | nil => cases h rfl
    | cons a tag => simp [startsWithTag]
  | cons c t ih =>
    rw [splitAtTag] at h
    split at h
    · cases h
    · rename_i hstart
      rw [Option.map_eq_none_iff] at h
      cases i with
      | zero => exact hstart
      | succ i =>
        rw [List.drop_succ_cons]
        exact ih h

/-- If nothing is found, the opening tag stands nowhere. -/
theorem not_occursAt_of_find_nothing (h : find tags t = .nothing) :
    ¬ OccursAt tags.opening t i := not_occursAt_of_splitAtTag (splitAtTag_of_find_nothing h)

/-- Behind the first opening tag no closing tag stands if the opening one is left unclosed. -/
theorem firstFrom_of_find_unterminated {before after : Text}
    (h : find tags t = .unterminated before after) :
    FirstFrom tags.opening t 0 before.length
      ∧ ∀ j, before.length ≤ j → ¬ OccursAt tags.closing t j := by
  obtain ⟨rest, hopen, hclose, -⟩ := splitAtTag_of_find_unterminated h
  have hrest : t.drop before.length = rest := by
    rw [← append_of_splitAtTag hopen, List.drop_left]
  refine ⟨firstFrom_of_splitAtTag hopen, fun j hj hoccurs => ?_⟩
  rw [occursAt_iff_drop hj, hrest] at hoccurs
  exact not_occursAt_of_splitAtTag hclose hoccurs

/-- A block starts with the first opening tag and ends with the first closing tag from there. -/
theorem firstFrom_of_find_block {before source after : Text}
    (h : find tags t = .block before source after) :
    FirstFrom tags.opening t 0 before.length
      ∧ ∃ j, FirstFrom tags.closing t before.length j
        ∧ before.length + source.length = j + tags.closing.length := by
  obtain ⟨rest, inside, closed, hopen, hclose, hsource, -⟩ := splitAtTag_of_find_block h
  have hrest : t.drop before.length = rest := by
    rw [← append_of_splitAtTag hopen, List.drop_left]
  have hfirst : FirstFrom tags.closing (t.drop before.length) 0 inside.length := by
    rw [hrest]
    exact firstFrom_of_splitAtTag hclose
  have hle := length_le_of_startsWithTag (startsWithTag_of_splitAtTag hclose)
  refine ⟨firstFrom_of_splitAtTag hopen, before.length + inside.length, hfirst.of_drop, ?_⟩
  rw [← hsource, List.length_append, List.length_take, Nat.min_eq_left hle]
  omega

/-! ## Texts divided at their tags -/

/-- A text divided into plain text and blocks, with perhaps an opening tag that is never closed. -/
structure Division where
  /-- The blocks, each with the plain text in front of it. -/
  blocks : List (Text × Text)
  /-- The plain text behind the last block. -/
  plain : Text
  /-- The opening tag that is never closed and the plain text behind it. -/
  opened : Option (Text × Text) := none
  deriving DecidableEq, Repr

/-- The text of blocks, with the plain text in front of each. -/
def blocksText (blocks : List (Text × Text)) : Text := blocks.flatMap fun b => b.1 ++ b.2

@[simp] theorem blocksText_nil : blocksText [] = [] := rfl

@[simp] theorem blocksText_cons (b : Text × Text) (blocks : List (Text × Text)) :
    blocksText (b :: blocks) = b.1 ++ b.2 ++ blocksText blocks := rfl

@[simp] theorem blocksText_append (blocks blocks' : List (Text × Text)) :
    blocksText (blocks ++ blocks') = blocksText blocks ++ blocksText blocks' := List.flatMap_append

namespace Division

/-- The text that is divided. -/
def text (d : Division) : Text :=
  blocksText d.blocks ++ d.plain ++ d.opened.elim [] fun o => o.1 ++ o.2

/-- One event for each part: plain text as it is, blocks with their newlines as spaces. -/
def events (d : Division) : List Event :=
  (d.blocks.flatMap fun b => [.plain b.1, .block (spaceNewlines b.2)])
    ++ .plain d.plain :: d.opened.elim [] fun o => [.unterminated, .plain o.2]

/-- The division with one more block in front. -/
def cons (before source : Text) (d : Division) : Division :=
  { d with blocks := (before, source) :: d.blocks }

/-- What stands in `t` from position `start` on is divided at the tags. -/
structure IsAt (d : Division) (tags : Tags) (t : Text) (start : Nat) : Prop where
  text : d.text = t.drop start
  /-- A block starts with the first opening tag behind the block before it, and it ends with the
  first closing tag from its own start on. -/
  block : ∀ before p b after, d.blocks = before ++ (p, b) :: after →
    FirstFrom tags.opening t (start + (blocksText before).length)
        (start + (blocksText before).length + p.length)
      ∧ ∃ j, FirstFrom tags.closing t (start + (blocksText before).length + p.length) j
        ∧ start + (blocksText before).length + p.length + b.length = j + tags.closing.length
  /-- The tag that is never closed is the first one behind the last block, and no closing tag
  stands from there on. -/
  opened : ∀ o p, d.opened = some (o, p) →
    EqUpToCase o tags.opening
      ∧ FirstFrom tags.opening t (start + (blocksText d.blocks).length)
          (start + (blocksText d.blocks).length + d.plain.length)
      ∧ ∀ j, start + (blocksText d.blocks).length + d.plain.length ≤ j →
          ¬ OccursAt tags.closing t j
  /-- If every opening tag is closed, none stands behind the last block. -/
  plain : d.opened = none → ∀ i, ¬ OccursAt tags.opening d.plain i

variable {d : Division}

/-- A block in front of what is divided. -/
theorem IsAt.cons {before source : Text} (htext : t.drop start = before ++ (source ++ d.text))
    (hopening : FirstFrom tags.opening t start (start + before.length))
    (hclosing : FirstFrom tags.closing t (start + before.length) j)
    (hend : start + before.length + source.length = j + tags.closing.length)
    (h : d.IsAt tags t (start + before.length + source.length)) :
    (d.cons before source).IsAt tags t start := by
  have hstart : ∀ n, start + (before ++ source).length + n
      = start + before.length + source.length + n := by
    intro n
    rw [List.length_append]
    omega
  refine ⟨?_, ?_, ?_, h.plain⟩
  · rw [htext]
    simp [Division.text, Division.cons]
  · intro l p b after hblocks
    cases l with
    | nil =>
      -- the block in front
      simp only [Division.cons, List.nil_append, List.cons.injEq, Prod.mk.injEq] at hblocks
      obtain ⟨⟨rfl, rfl⟩, rfl⟩ := hblocks
      exact ⟨hopening, j, hclosing, hend⟩
    | cons x l =>
      simp only [Division.cons, List.cons_append, List.cons.injEq] at hblocks
      obtain ⟨rfl, hblocks⟩ := hblocks
      have hlater := h.block l p b after hblocks
      rwa [blocksText_cons, List.length_append, ← Nat.add_assoc, hstart]
  · intro o p hopened
    have hlater := h.opened o p hopened
    rwa [Division.cons, blocksText_cons, List.length_append, ← Nat.add_assoc, hstart]

end Division

/-- The slices of what is left of a text divide it at the tags. -/
theorem exists_division_sliceBlocks (hclosing : tags.closing ≠ []) {u : Text}
    (hu : t.drop start = u) :
    ∃ d : Division, (sliceBlocks tags hclosing u).map Slice.event = d.events
      ∧ d.IsAt tags t start := by
  fun_induction sliceBlocks tags hclosing u generalizing start with
  | case1 u h =>
    refine ⟨⟨[], u, none⟩, rfl, ?_, ?_, ?_, ?_⟩
    · simp [Division.text, hu]
    · simp
    · simp
    · exact fun _ i => not_occursAt_of_find_nothing h
  | case2 u before after h =>
    obtain ⟨hopen, hclose⟩ := firstFrom_of_find_unterminated h
    obtain ⟨opening, happend, hcase⟩ := of_find_unterminated h
    have hopening : (u.drop before.length).take tags.opening.length = opening := by
      have hlen : opening.length = tags.opening.length := by
        simpa using congrArg List.length hcase
      rw [← happend, List.drop_left, ← hlen, List.take_left]
    rw [hopening]
    rw [← hu] at hopen hclose
    refine ⟨⟨[], before, some (opening, after)⟩, rfl, ?_, ?_, ?_, ?_⟩
    · simp [Division.text, hu, happend]
    · simp
    · rintro o p ⟨⟩
      refine ⟨hcase, hopen.of_drop, fun j hj hoccurs => ?_⟩
      rw [occursAt_iff_drop (by omega : start ≤ j)] at hoccurs
      have hj' : start + before.length ≤ j := by simpa using hj
      exact hclose (j - start) (by omega) hoccurs
    · simp
  | case3 u before source after h ih =>
    obtain ⟨hopen, j, hclose, hend⟩ := firstFrom_of_find_block h
    have happend := (of_find_block h).1
    rw [← hu] at hopen hclose
    have hafter : t.drop (start + before.length + source.length) = after := by
      rw [Nat.add_assoc, ← List.length_append, ← List.drop_drop, hu, ← happend,
        ← List.append_assoc, List.drop_left]
    obtain ⟨d, hevents, hd⟩ := ih hafter
    refine ⟨d.cons before source, ?_, hd.cons ?_ hopen.of_drop hclose.of_drop (by omega)⟩
    · rw [List.map_cons, List.map_cons, hevents]
      rfl
    · rw [hd.text, hafter, hu, happend]

namespace Division

variable {d : Division}

/-- A tag is never closed exactly if the first opening tag behind the last block has no closing
tag from its own start on. -/
theorem IsAt.isSome_opened_iff (h : d.IsAt tags t start) :
    d.opened.isSome = true ↔ ∃ i, FirstFrom tags.opening t (start + (blocksText d.blocks).length) i
      ∧ ∀ j, i ≤ j → ¬ OccursAt tags.closing t j := by
  constructor
  · intro hsome
    obtain ⟨⟨o, p⟩, hopened⟩ := Option.isSome_iff_exists.1 hsome
    obtain ⟨-, hfirst, hclosing⟩ := h.opened o p hopened
    exact ⟨_, hfirst, hclosing⟩
  · rintro ⟨i, hfirst, -⟩
    cases hopened : d.opened with
    | some o => rfl
    | none =>
      -- the plain text is all that is left of the text
      have hplain : t.drop (start + (blocksText d.blocks).length) = d.plain := by
        rw [← List.drop_drop, ← h.text, Division.text, hopened]
        simp
      have hoccurs := hfirst.2.1
      rw [occursAt_iff_drop hfirst.1, hplain] at hoccurs
      exact absurd hoccurs (h.plain hopened _)

/-- A block starts with the whole opening tag unless a closing tag stands in it. -/
theorem IsAt.occursAt_block (h : d.IsAt tags t start)
    (hinside : ∀ i, ¬ OccursAt tags.closing tags.opening i) {p b : Text}
    (hb : (p, b) ∈ d.blocks) : OccursAt tags.opening b 0 := by
  obtain ⟨before, after, hblocks⟩ := List.append_of_mem hb
  obtain ⟨hopening, j, hclosing, hend⟩ := h.block before p b after hblocks
  have htext : ∃ rest, t.drop (start + (blocksText before).length + p.length) = b ++ rest := by
    have hdrop := h.text
    rw [Division.text, hblocks, blocksText_append, blocksText_cons] at hdrop
    rw [← List.drop_drop, ← List.drop_drop, ← hdrop]
    simp
  obtain ⟨rest, hrest⟩ := htext
  have hle : tags.opening.length ≤ b.length := Nat.le_of_not_lt fun hlt =>
    hinside _ (hopening.2.1.of_within hclosing.2.1 hclosing.1 (by omega))
  have hoccurs := hopening.2.1
  unfold OccursAt at hoccurs ⊢
  rwa [hrest, List.take_append_of_le_length hle] at hoccurs

end Division

/-! ## Events -/

/-- The visitor that keeps all events sees those of the slices. -/
theorem events_eq_map (tags : Tags) (t : Text) :
    events tags t = (slices tags t).map Slice.event := by
  let keep : Event → StateM (List Event) Unit := fun e => modify (e :: ·)
  have hrun : ∀ (ss : List Slice) (seen : List Event),
      ((forM ss fun s => keep s.event).run seen).2 = (ss.map Slice.event).reverse ++ seen := by
    intro ss
    induction ss with
    | nil => exact fun _ => rfl
    | cons s ss ih =>
      intro seen
      rw [List.forM_cons, List.map_cons, List.reverse_cons, List.append_assoc]
      exact ih (s.event :: seen)
  have hall := hrun (slices tags t) []
  rw [← scan_eq_forM, List.append_nil] at hall
  have hevents : events tags t = ((scan tags keep t).run []).2.reverse := rfl
  rw [hevents, hall, List.reverse_reverse]

/-- **What a markup scan reports.** With an empty tag, the whole text as plain text. With two tags,
the events of a division of the text: between the blocks, which start with the first opening tag
behind the block before and end with the first closing tag from their own start on, there is plain
text, and if the first opening tag behind the last block is never closed, it is reported and all
behind it is plain. A block starts with the whole opening tag unless a closing tag stands in it. -/
theorem exists_division_events (tags : Tags) (t : Text) :
    if tags.opening = [] ∨ tags.closing = [] then events tags t = [.plain t]
    else ∃ d : Division, events tags t = d.events ∧ d.IsAt tags t 0
      ∧ (d.opened.isSome = true ↔ ∃ i, FirstFrom tags.opening t (blocksText d.blocks).length i
          ∧ ∀ j, i ≤ j → ¬ OccursAt tags.closing t j)
      ∧ ((∀ i, ¬ OccursAt tags.closing tags.opening i) →
          ∀ p b, (p, b) ∈ d.blocks → OccursAt tags.opening b 0) := by
  rw [events_eq_map, slices]
  split
  · rfl
  · rename_i htags
    obtain ⟨d, hevents, hd⟩ :=
      exists_division_sliceBlocks (Tags.closing_ne_nil htags) (List.drop_zero (l := t))
    refine ⟨d, hevents, hd, ?_, fun hinside p b hb => hd.occursAt_block hinside hb⟩
    have hopened := hd.isSome_opened_iff
    rwa [Nat.zero_add] at hopened

/-- The closing tag may begin in the opening one; a tag behind the blocks is left unclosed. -/
example : events (.ofTexts "[q".toList "q]".toList) "a[Q]\nb[q\nc".toList
    = [.plain "a".toList, .block "[Q]".toList, .plain "\nb".toList, .unterminated,
      .plain "\nc".toList] := by
  cbv

end Markup
end ChatText
