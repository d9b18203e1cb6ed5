import ChatText.Proofs.FallbackTheorems

/-!
# Blocks counted by their tags

The blocks of a text are told by its tags alone: `blockCount` goes through them in order, and with
all tags of a text it finds the number of blocks that a scan reports, or that one is left open
(`blockCount_tagsRead`).

What is counted may be less than was typed. `ReadsTags` says that at the positions of a text its
tags are read but for some closing ones. Then no block is gained, and all of them are kept exactly
if behind each one a closing tag is read before the next one starts (`counted_sliceBlocks`,
`KeepsBlocks`): in the induction over the slices a block whose closing tag is missed stays open up
to the plain text behind it, which is why `Counted` is about counting from inside a block as well.
-/

namespace ChatText
namespace Markup

/-! ## Tags of embedded objects -/

/-- A tag that opens a block or one that closes it. -/
inductive TagKind where
  | opening
  | closing
  deriving DecidableEq, Repr

/-- The tag of embedded objects that a text starts with. -/
def tagAt (t : Text) : Option TagKind :=
  if startsWithTag Tags.object.opening t then some .opening
  else if startsWithTag Tags.object.closing t then some .closing
  else none

theorem object_opening : Tags.object.opening = ['<', 'o', 'b', 'j', 'e', 'c', 't'] := by decide

theorem object_closing :
    Tags.object.closing = ['<', '/', 'o', 'b', 'j', 'e', 'c', 't', '>'] := by decide

/-- Tags start with a symbol that has no case. -/
theorem tagAt_cons_of_ne {c : Char} (hc : c ≠ '<') (t : Text) : tagAt (c :: t) = none := by
  have hlower : c.toLower ≠ '<' := by
    intro h
    rcases toLower_cases c with heq | ⟨hge, -, heq⟩
    · exact hc (heq.symm.trans h)
    · rw [h] at heq
      have hnat : '<'.toNat = 60 := rfl
      omega
  have hne : ('<'.toLower == c.toLower) = false := by
    simpa using fun h => hlower h.symm
  rw [tagAt, object_opening, object_closing, startsWithTag, startsWithTag, hne]
  rfl

@[simp] theorem tagAt_nil : tagAt [] = none := rfl

theorem tagAt_eq_opening_iff {t : Text} :
    tagAt t = some .opening ↔ startsWithTag Tags.object.opening t = true := by
  unfold tagAt
  split
  · simp [*]
  · split <;> simp [*]

/-- No text starts with both tags. -/
theorem not_opening_and_closing (t : Text) :
    ¬ (startsWithTag Tags.object.opening t = true
      ∧ startsWithTag Tags.object.closing t = true) := by
  rintro ⟨hopening, hclosing⟩
  rw [object_opening] at hopening
  rw [object_closing] at hclosing
  rcases t with _ | ⟨c, _ | ⟨d, t⟩⟩
  · cases hopening
  · simp [startsWithTag] at hopening
  · -- the second symbols differ
    simp only [startsWithTag, Bool.and_eq_true, beq_iff_eq] at hopening hclosing
    have h : 'o'.toLower = '/'.toLower := hopening.2.1.trans hclosing.2.1.symm
    exact absurd h (by decide)

theorem tagAt_eq_closing_iff {t : Text} :
    tagAt t = some .closing ↔ startsWithTag Tags.object.closing t = true := by
  have hboth := not_opening_and_closing t
  unfold tagAt
  split
  · rename_i hopening
    simp [hopening] at hboth
    simp [hboth]
  · split <;> simp [*]

/-! ## Counting blocks -/

/-- The number of blocks that the tags of a text make, inside a block or outside, if none is left
open. -/
def blockCount : Bool → List TagKind → Option Nat
  | false, [] => some 0
  | true, [] => none
  | _, .opening :: ks => blockCount true ks
  | false, .closing :: ks => blockCount false ks
  | true, .closing :: ks => (blockCount false ks).map (· + 1)

/-- Outside of blocks closing tags make no difference. -/
theorem blockCount_false_append {ks : List TagKind} (h : ∀ k ∈ ks, k = .closing)
    (rest : List TagKind) : blockCount false (ks ++ rest) = blockCount false rest := by
  induction ks with
  | nil => rfl
  | cons k ks ih =>
    rw [List.forall_mem_cons] at h
    rw [h.1, List.cons_append, blockCount, ih h.2]

/-- The first closing tag ends the block that is open. -/
theorem blockCount_true_append {ks : List TagKind} (h : ∀ k ∈ ks, k = .closing)
    (rest : List TagKind) :
    blockCount true (ks ++ rest)
      = if ks = [] then blockCount true rest else (blockCount false rest).map (· + 1) := by
  cases ks with
  | nil => rfl
  | cons k ks =>
    rw [List.forall_mem_cons] at h
    rw [h.1, List.cons_append, blockCount, blockCount_false_append h.2,
      if_neg (List.cons_ne_nil _ _)]

/-- Inside a block opening tags make no difference. -/
theorem blockCount_opening_append (inside : Bool) {ks : List TagKind}
    (h : ∀ k ∈ ks, k = .opening) (rest : List TagKind) :
    blockCount inside (.opening :: ks ++ rest) = blockCount true rest := by
  rw [List.cons_append, blockCount]
  induction ks with
  | nil => rfl
  | cons k ks ih =>
    rw [List.forall_mem_cons] at h
    rw [h.1, List.cons_append, blockCount, ih h.2]

/-! ## Tags read at positions -/

/-- What is read at the `n` positions from `start` on. -/
def tagsRead (read : Nat → Option TagKind) (start n : Nat) : List TagKind :=
  (List.range' start n).filterMap read

/-- The tags of the text are read, but closing ones may be missed. -/
def ReadsTags (read : Nat → Option TagKind) (t : Text) : Prop :=
  ∀ i, read i = tagAt (t.drop i) ∨ tagAt (t.drop i) = some .closing ∧ read i = none

variable {read : Nat → Option TagKind} {n : Nat}

theorem tagsRead_add (read : Nat → Option TagKind) (start m n : Nat) :
    tagsRead read start (m + n) = tagsRead read start m ++ tagsRead read (start + m) n := by
  rw [tagsRead, ← List.range'_append_1, List.filterMap_append]
  rfl

theorem tagsRead_one (read : Nat → Option TagKind) (start : Nat) :
    tagsRead read start 1 = (read start).toList := by
  rw [tagsRead, List.range'_one, List.filterMap_cons]
  cases read start <;> rfl

theorem mem_tagsRead_iff {k : TagKind} :
    k ∈ tagsRead read start n ↔ ∃ i, start ≤ i ∧ i < start + n ∧ read i = some k := by
  simp only [tagsRead, List.mem_filterMap, List.mem_range'_1, and_assoc]

/-- The symbols that a text starts with are those of the tag, up to case. -/
theorem head?_drop_of_startsWithTag (h : startsWithTag tag t = true) {k : Nat} {a : Char}
    (ha : tag[k]? = some a) : ∃ c, (t.drop k).head? = some c ∧ c.toLower = a.toLower := by
  induction tag generalizing t k with
  | nil => simp at ha
  | cons b tag ih =>
    cases t with
    | nil => cases h
    | cons c t =>
      rw [startsWithTag, Bool.and_eq_true, beq_iff_eq] at h
      cases k with
      | zero =>
        obtain rfl : b = a := by simpa using ha
        exact ⟨c, rfl, h.1.symm⟩
      | succ k => exact ih h.2 (by simpa using ha)

namespace ReadsTags

variable (h : ReadsTags read t)
include h

theorem eq_opening_iff : read i = some .opening ↔ OccursAt Tags.object.opening t i := by
  rw [occursAt_iff, ← tagAt_eq_opening_iff]
  rcases h i with heq | ⟨hclosing, hnone⟩
  · rw [heq]
  · simp [hclosing, hnone]

theorem occursAt_closing (hi : read i = some .closing) : OccursAt Tags.object.closing t i := by
  rw [occursAt_iff, ← tagAt_eq_closing_iff]
  rcases h i with heq | ⟨hclosing, -⟩
  · rw [← heq, hi]
  · exact hclosing

/-- Where no opening tag stands, only closing ones are read. -/
theorem eq_closing_of_mem
    (hnone : ∀ i, start ≤ i → i < start + n → ¬ OccursAt Tags.object.opening t i) :
    ∀ k ∈ tagsRead read start n, k = .closing := by
  intro k hk
  obtain ⟨i, hge, hlt, hi⟩ := mem_tagsRead_iff.1 hk
  cases k with
  | opening => exact absurd (h.eq_opening_iff.1 hi) (hnone i hge hlt)
  | closing => rfl

/-- Where no closing tag stands, only opening ones are read. -/
theorem eq_opening_of_mem
    (hnone : ∀ i, start ≤ i → i < start + n → ¬ OccursAt Tags.object.closing t i) :
    ∀ k ∈ tagsRead read start n, k = .opening := by
  intro k hk
  obtain ⟨i, hge, hlt, hi⟩ := mem_tagsRead_iff.1 hk
  cases k with
  | opening => rfl
  | closing => exact absurd (h.occursAt_closing hi) (hnone i hge hlt)

/-- Behind an opening tag, up to the first closing one, all tags are opening ones. -/
theorem exists_openings (hi : OccursAt Tags.object.opening t i)
    (hnone : ∀ j, i ≤ j → j < i + n → ¬ OccursAt Tags.object.closing t j) (hn : 0 < n) :
    ∃ ks, tagsRead read i n = .opening :: ks ∧ ∀ k ∈ ks, k = .opening := by
  obtain ⟨n, rfl⟩ := Nat.exists_eq_add_of_lt hn
  rw [Nat.zero_add, Nat.add_comm n 1, tagsRead_add, tagsRead_one, h.eq_opening_iff.2 hi]
  refine ⟨tagsRead read (i + 1) n, rfl, h.eq_opening_of_mem fun j hge hlt => ?_⟩
  exact hnone j (by omega) (by omega)

/-- In a closing tag no other tag starts. -/
theorem tagsRead_closing (hi : OccursAt Tags.object.closing t i) :
    tagsRead read i Tags.object.closing.length = (read i).toList := by
  have hlater : tagsRead read (i + 1) 8 = [] := by
    refine List.filterMap_eq_nil_iff.2 fun j hj => ?_
    rw [List.mem_range'_1] at hj
    obtain ⟨k, rfl⟩ := Nat.exists_eq_add_of_le (show i ≤ j by omega)
    have hk : k < Tags.object.closing.length := by
      rw [object_closing]
      show k < 9
      omega
    obtain ⟨c, hhead, hlower⟩ := head?_drop_of_startsWithTag (occursAt_iff.1 hi)
      (List.getElem?_eq_getElem hk)
    have hsymbol : ∀ k (hk : k < Tags.object.closing.length), 0 < k →
        Tags.object.closing[k].toLower ≠ '<' := by decide
    have hne : c ≠ '<' := by
      rintro rfl
      exact hsymbol k hk (by omega) (hlower.symm.trans rfl)
    obtain ⟨rest, hrest⟩ := List.head?_eq_some_iff.1 hhead
    have htag : tagAt (t.drop (i + k)) = none := by
      rw [← List.drop_drop, hrest]
      exact tagAt_cons_of_ne hne rest
    rcases h (i + k) with heq | ⟨-, hnone⟩
    · rw [heq, htag]
    · exact hnone
  have hlength : Tags.object.closing.length = 1 + 8 := by decide
  rw [hlength, tagsRead_add, tagsRead_one, hlater, List.append_nil]

end ReadsTags

/-! ## Blocks that are kept -/

/-- Is the slice a block? -/
def Slice.isBlock : Slice → Bool
  | block _ => true
  | plain _ | opening _ => false

/-- A closing tag is read at the end of each block or in the plain text behind it. -/
def KeepsBlocks (read : Nat → Option TagKind) (start : Nat) (ss : List Slice) : Prop :=
  ∀ before b q after, ss = before ++ .block b :: .plain q :: after →
    .closing ∈ tagsRead read (start + (before.flatMap Slice.source).length) (b ++ q).length

/-- The blocks are the first one and those behind it. -/
theorem keepsBlocks_cons_iff {p b q : Text} {after : List Slice} :
    KeepsBlocks read start (.plain p :: .block b :: .plain q :: after)
      ↔ .closing ∈ tagsRead read (start + p.length) (b ++ q).length
        ∧ KeepsBlocks read (start + p.length + b.length) (.plain q :: after) := by
  constructor
  · intro h
    refine ⟨?_, fun before b' q' after' hsplit => ?_⟩
    · simpa [Slice.source] using h [.plain p] b q after rfl
    · have hlater := h (.plain p :: .block b :: before) b' q' after' (by rw [hsplit]; rfl)
      simpa [Slice.source, Nat.add_assoc] using hlater
  · rintro ⟨hfirst, hlater⟩ before b' q' after' hsplit
    rcases before with - | ⟨x, - | ⟨y, before⟩⟩
    · cases hsplit
    · simp only [List.cons_append, List.nil_append, List.cons.injEq, Slice.block.injEq,
        Slice.plain.injEq] at hsplit
      obtain ⟨rfl, rfl, rfl, rfl⟩ := hsplit
      simpa [Slice.source] using hfirst
    · simp only [List.cons_append, List.cons.injEq] at hsplit
      obtain ⟨rfl, rfl, hsplit⟩ := hsplit
      simpa [Slice.source, Nat.add_assoc] using hlater before b' q' after' hsplit

/-- What counting the tags that are read says about the slices of a text. -/
structure Counted (read : Nat → Option TagKind) (start : Nat) (ss : List Slice)
    (ks : List TagKind) : Prop where
  /-- No blocks are added; a block that is open may be ended. -/
  le : ∀ inside n, blockCount inside ks = some n → n ≤ ss.countP Slice.isBlock + inside.toNat
  outside : blockCount false ks = some (ss.countP Slice.isBlock) ↔ KeepsBlocks read start ss
  /-- A block that is open has to be ended in the plain text in front. -/
  inside : blockCount true ks = some (ss.countP Slice.isBlock + 1)
    ↔ (∃ q after, ss = .plain q :: after ∧ .closing ∈ tagsRead read start q.length)
      ∧ KeepsBlocks read start ss

theorem map_succ_eq_some_iff {o : Option Nat} : o.map (· + 1) = some (n + 1) ↔ o = some n := by
  cases o <;> simp

theorem exists_plain_sliceBlocks (tags : Tags) (hclosing : tags.closing ≠ []) (u : Text) :
    ∃ q after, sliceBlocks tags hclosing u = .plain q :: after := by
  rw [sliceBlocks]
  split <;> exact ⟨_, _, rfl⟩

/-- Counting starts over behind the closing tags of the plain text in front. -/
theorem Counted.of_front {p : Text} {after : List Slice} {rest : List TagKind}
    (hfront : ∀ k ∈ tagsRead read start p.length, k = .closing)
    (hle : ∀ inside n, blockCount inside rest = some n →
      n ≤ (Slice.plain p :: after).countP Slice.isBlock)
    (hkeeps : blockCount false rest = some ((Slice.plain p :: after).countP Slice.isBlock)
      ↔ KeepsBlocks read start (.plain p :: after)) :
    Counted read start (.plain p :: after) (tagsRead read start p.length ++ rest) := by
  have hfalse := blockCount_false_append hfront rest
  have htrue := blockCount_true_append hfront rest
  refine ⟨fun inside n hn => ?_, ?_, ?_⟩
  · cases inside with
    | false =>
      rw [hfalse] at hn
      exact hle false n hn
    | true =>
      rw [htrue] at hn
      split at hn
      · exact Nat.le_succ_of_le (hle true n hn)
      · obtain ⟨m, hm, rfl⟩ := Option.map_eq_some_iff.1 hn
        exact Nat.succ_le_succ (hle false m hm)
  · rw [hfalse]
    exact hkeeps
  · rw [htrue]
    split
    · -- no closing tag is read in front, and so the open block is one too few
      rename_i hempty
      refine iff_of_false (fun hn => ?_) ?_
      · have := hle true _ hn
        omega
      · rintro ⟨⟨q, after', hsplit, hmem⟩, -⟩
        obtain ⟨rfl, -⟩ : p = q ∧ after = after' := by simpa using hsplit
        rw [hempty] at hmem
        cases hmem
    · rename_i hne
      obtain ⟨k, hk⟩ := List.exists_mem_of_ne_nil _ hne
      have hhead : ∃ q after', Slice.plain p :: after = .plain q :: after'
          ∧ .closing ∈ tagsRead read start q.length := ⟨p, after, rfl, by rwa [← hfront k hk]⟩
      rw [map_succ_eq_some_iff, hkeeps]
      exact (and_iff_right hhead).symm

/-- Plain text without blocks. -/
theorem counted_plain {q : Text} (hclosing : ∀ k ∈ tagsRead read start q.length, k = .closing) :
    Counted read start [.plain q] (tagsRead read start q.length) := by
  have hkeeps : KeepsBlocks read start [.plain q] := by
    intro before b q' after hsplit
    have hlen := congrArg List.length hsplit
    simp only [List.length_append, List.length_cons, List.length_nil] at hlen
    omega
  have hle : ∀ inside n, blockCount inside [] = some n →
      n ≤ [Slice.plain q].countP Slice.isBlock := by
    intro inside n hn
    cases inside with
    | false => exact Nat.le_of_eq (Option.some.inj hn).symm
    | true => cases hn
  have hcounted := Counted.of_front hclosing hle (iff_of_true rfl hkeeps)
  rwa [List.append_nil] at hcounted

/-- Behind a block, which may have lost its closing tag, no blocks are added. -/
theorem Counted.le_succ {ss : List Slice} {ks : List TagKind} {ending : Option TagKind}
    (h : Counted read start ss ks) (hending : ∀ k ∈ ending, k = .closing)
    (hn : blockCount true (ending.toList ++ ks) = some n) : n ≤ ss.countP Slice.isBlock + 1 := by
  cases ending with
  | none => exact h.le true n hn
  | some k =>
    obtain rfl := hending k rfl
    obtain ⟨m, hm, rfl⟩ := Option.map_eq_some_iff.1 hn
    exact Nat.succ_le_succ (h.le false m hm)

/-- A block is kept if its closing tag is read, or one in the plain text behind it. -/
theorem Counted.eq_succ_iff {q : Text} {after : List Slice} {ks : List TagKind}
    {ending : Option TagKind} (h : Counted read start (.plain q :: after) ks)
    (hending : ∀ k ∈ ending, k = .closing) :
    blockCount true (ending.toList ++ ks)
        = some ((Slice.plain q :: after).countP Slice.isBlock + 1)
      ↔ (.closing ∈ ending ∨ .closing ∈ tagsRead read start q.length)
        ∧ KeepsBlocks read start (.plain q :: after) := by
  cases ending with
  | none => simpa using h.inside
  | some k =>
    obtain rfl := hending k rfl
    show blockCount true (.closing :: ks) = _ ↔ _
    rw [blockCount, map_succ_eq_some_iff, h.outside]
    simp

/-- A block, of which the closing tag is read or missed, with plain text in front of it. -/
theorem Counted.block {p b q : Text} {after : List Slice} {ks openings : List TagKind}
    (hfront : ∀ k ∈ tagsRead read start p.length, k = .closing)
    (hopenings : ∀ k ∈ openings, k = .opening) {ending : Option TagKind}
    (hending : ∀ k ∈ ending, k = .closing)
    (hb : tagsRead read (start + p.length) b.length = .opening :: openings ++ ending.toList)
    (h : Counted read (start + p.length + b.length) (.plain q :: after) ks) :
    Counted read start (.plain p :: .block b :: .plain q :: after)
      (tagsRead read start (p.length + b.length) ++ ks) := by
  have hcount : (Slice.plain p :: .block b :: .plain q :: after).countP Slice.isBlock
      = (Slice.plain q :: after).countP Slice.isBlock + 1 := by
    simp [List.countP_cons, Slice.isBlock]
  have hmem : .closing ∈ tagsRead read (start + p.length) (b ++ q).length
      ↔ .closing ∈ ending ∨ .closing ∈ tagsRead read (start + p.length + b.length) q.length := by
    have hnot : .closing ∉ openings := fun hmem => by cases hopenings _ hmem
    rw [List.length_append, tagsRead_add, hb]
    simp [hnot]
  rw [tagsRead_add, hb, List.append_assoc, List.append_assoc]
  refine .of_front hfront (fun inside n hn => ?_) ?_
  · rw [blockCount_opening_append inside hopenings] at hn
    rw [hcount]
    exact h.le_succ hending hn
  · rw [blockCount_opening_append false hopenings, hcount, h.eq_succ_iff hending,
      keepsBlocks_cons_iff, hmem]

/-- What leaves a block open does so behind closing tags. -/
theorem blockCount_append_eq_none {front rest : List TagKind} (hfront : ∀ k ∈ front, k = .closing)
    (hrest : ∀ inside, blockCount inside rest = none) (inside : Bool) :
    blockCount inside (front ++ rest) = none := by
  cases inside with
  | false => rw [blockCount_false_append hfront, hrest]
  | true =>
    rw [blockCount_true_append hfront, hrest, hrest]
    split <;> rfl

/-- An opening tag behind which no closing one is read leaves its block open. -/
theorem blockCount_unclosed {openings : List TagKind} (hopenings : ∀ k ∈ openings, k = .opening)
    (inside : Bool) : blockCount inside (.opening :: openings) = none := by
  have hcount := blockCount_opening_append inside hopenings []
  rwa [List.append_nil] at hcount

/-- What leaves a block open does so behind another block. -/
theorem blockCount_block_append_eq_none {openings ks : List TagKind} {ending : Option TagKind}
    (hopenings : ∀ k ∈ openings, k = .opening) (hending : ∀ k ∈ ending, k = .closing)
    (hks : ∀ inside, blockCount inside ks = none) (inside : Bool) :
    blockCount inside (.opening :: openings ++ (ending.toList ++ ks)) = none := by
  rw [blockCount_opening_append inside hopenings]
  cases ending with
  | none => exact hks true
  | some k =>
    obtain rfl := hending k rfl
    show (blockCount false ks).map (· + 1) = none
    rw [hks]
    rfl

namespace ReadsTags

variable (h : ReadsTags read t) {u before source after : Text}
include h

/-- The tags that are read up to an opening tag that is never closed, and from there on. -/
theorem exists_tags_unterminated (hu : t.drop start = u)
    (hfind : find .object u = .unterminated before after) :
    ∃ front openings, (∀ k ∈ front, k = .closing) ∧ (∀ k ∈ openings, k = .opening)
      ∧ tagsRead read start u.length = front ++ .opening :: openings := by
  obtain ⟨hopen, hclose⟩ := firstFrom_of_find_unterminated hfind
  have hlt : before.length < u.length := by
    refine Nat.lt_of_not_le fun hle => ?_
    have hoccurs := occursAt_iff.1 hopen.2.1
    rw [List.drop_eq_nil_of_le (by omega), object_opening] at hoccurs
    cases hoccurs
  rw [← hu] at hopen hclose
  obtain ⟨-, hoccurs, hfirst⟩ := hopen.of_drop
  have hunclosed : ∀ j, start + before.length ≤ j → j < start + before.length
      + (u.length - before.length) → ¬ OccursAt Tags.object.closing t j := by
    intro j hge _ hoccurs
    rw [occursAt_iff_drop (by omega : start ≤ j)] at hoccurs
    exact hclose (j - start) (by omega) hoccurs
  obtain ⟨openings, htags, hopenings⟩ := h.exists_openings hoccurs hunclosed (by omega)
  have hlength : u.length = before.length + (u.length - before.length) := by omega
  refine ⟨tagsRead read start before.length, openings, ?_, hopenings, ?_⟩
  · exact h.eq_closing_of_mem fun i hge hlt => hfirst i hge hlt
  · rw [hlength, tagsRead_add, htags]

/-- The tags that are read up to a block and in it: opening ones, and the closing one unless it is
missed. -/
theorem exists_tags_block (hu : t.drop start = u)
    (hfind : find .object u = .block before source after) :
    ∃ (openings : List TagKind) (ending : Option TagKind),
      (∀ k ∈ tagsRead read start before.length, k = .closing)
      ∧ (∀ k ∈ openings, k = .opening) ∧ (∀ k ∈ ending, k = .closing)
      ∧ tagsRead read (start + before.length) source.length
        = .opening :: openings ++ ending.toList := by
  obtain ⟨hopen, j, hclose, hend⟩ := firstFrom_of_find_block hfind
  rw [← hu] at hopen hclose
  obtain ⟨-, hopening, hfirst⟩ := hopen.of_drop
  obtain ⟨hle, hclosing, hnone⟩ := hclose.of_drop
  -- no text starts with both tags
  have hboth : ∀ i, OccursAt Tags.object.opening t i → ¬ OccursAt Tags.object.closing t i :=
    fun i hi hi' => not_opening_and_closing _ ⟨occursAt_iff.1 hi, occursAt_iff.1 hi'⟩
  have hne : before.length ≠ j := by
    rintro rfl
    exact hboth _ hopening hclosing
  obtain ⟨openings, htags, hopenings⟩ := h.exists_openings hopening
    (fun k hge hlt => hnone k hge (by omega)) (by omega : 0 < start + j - (start + before.length))
  refine ⟨openings, read (start + j), ?_, hopenings, fun k hk => ?_, ?_⟩
  · exact h.eq_closing_of_mem fun i hge hlt => hfirst i hge hlt
  · cases k with
    | opening => exact absurd hclosing (hboth _ (h.eq_opening_iff.1 hk))
    | closing => rfl
  · have hlength : source.length
        = (start + j - (start + before.length)) + Tags.object.closing.length := by omega
    rw [hlength, tagsRead_add, htags, Nat.add_sub_cancel' hle, h.tagsRead_closing hclosing]

end ReadsTags

/-- Counting the tags that are read in a text: an opening tag that is never closed leaves no
count, and otherwise the count tells whether all blocks are kept. -/
theorem counted_sliceBlocks (hclosing : Tags.object.closing ≠ []) (hread : ReadsTags read t)
    {u : Text} (hu : t.drop start = u) :
    ((sliceBlocks .object hclosing u).any Slice.isOpening = true →
        ∀ inside, blockCount inside (tagsRead read start u.length) = none)
      ∧ ((sliceBlocks .object hclosing u).any Slice.isOpening = false →
        Counted read start (sliceBlocks .object hclosing u) (tagsRead read start u.length)) := by
  fun_induction sliceBlocks .object hclosing u generalizing start with
  | case1 u h =>
    refine ⟨fun hopening => by simp [Slice.isOpening] at hopening, fun _ => ?_⟩
    refine counted_plain (hread.eq_closing_of_mem fun i hge hlt hoccurs => ?_)
    rw [occursAt_iff_drop hge, hu] at hoccurs
    exact not_occursAt_of_find_nothing h hoccurs
  | case2 u before after h =>
    refine ⟨fun _ inside => ?_, fun hopening => by simp [Slice.isOpening] at hopening⟩
    obtain ⟨front, openings, hfront, hopenings, htags⟩ := hread.exists_tags_unterminated hu h
    rw [htags]
    exact blockCount_append_eq_none hfront (blockCount_unclosed hopenings) inside
  | case3 u before source after h ih =>
    obtain ⟨openings, ending, hfront, hopenings, hending, htags⟩ := hread.exists_tags_block hu h
    have happend := (of_find_block h).1
    have hafter : t.drop (start + before.length + source.length) = after := by
      rw [Nat.add_assoc, ← List.length_append, ← List.drop_drop, hu, ← happend,
        ← List.append_assoc, List.drop_left]
    have hlength : u.length = (before.length + source.length) + after.length := by
      rw [← happend, List.length_append, List.length_append, Nat.add_assoc]
    obtain ⟨hnone, hcounted⟩ := ih hafter
    obtain ⟨q, later, hq⟩ := exists_plain_sliceBlocks .object hclosing after
    rw [hlength, tagsRead_add, ← Nat.add_assoc]
    refine ⟨fun hopening => ?_, fun hopening => ?_⟩
    · have hopening : (sliceBlocks .object hclosing after).any Slice.isOpening = true := by
        simpa [Slice.isOpening] using hopening
      rw [tagsRead_add, htags, List.append_assoc, List.append_assoc]
      exact blockCount_append_eq_none hfront
        (blockCount_block_append_eq_none hopenings hending (hnone hopening))
    · rw [hq] at hcounted hopening ⊢
      have hopening : (Slice.plain q :: later).any Slice.isOpening = false := by
        simpa [Slice.isOpening] using hopening
      exact .block hfront hopenings hending htags (hcounted hopening)

/-! ## Blocks that are reported -/

/-- Is the event a block? -/
def Event.isBlock : Event → Bool
  | block _ => true
  | plain _ | unterminated => false

theorem object_closing_ne_nil : Tags.object.closing ≠ [] := by decide

theorem slices_object (t : Text) :
    slices .object t = sliceBlocks .object object_closing_ne_nil t := by
  have htags : ¬ (Tags.object.opening = [] ∨ Tags.object.closing = []) := by decide
  rw [slices, dif_neg htags]

theorem countP_isBlock_events (tags : Tags) (t : Text) :
    (events tags t).countP Event.isBlock = (slices tags t).countP Slice.isBlock := by
  rw [events_eq_map, List.countP_map]
  refine List.countP_congr fun s _ => ?_
  cases s <;> rfl

/-- A block ends with its closing tag. -/
theorem exists_closing_of_block_mem {tags : Tags} {hclosing : tags.closing ≠ []} {u b : Text}
    (h : .block b ∈ sliceBlocks tags hclosing u) :
    ∃ inside closing, b = inside ++ closing ∧ EqUpToCase closing tags.closing := by
  fun_induction sliceBlocks tags hclosing u with
  | case1 u hfind => simp at h
  | case2 u before after hfind => simp at h
  | case3 u before source after hfind ih =>
    rcases List.mem_cons.1 h with heq | h
    · cases heq
    rcases List.mem_cons.1 h with heq | h
    · rw [Slice.block.inj heq]
      exact (of_find_block hfind).2.2
    · exact ih h

/-- The closing tag of a block stands at its end. -/
theorem exists_occursAt_closing {before after : List Slice} {b : Text}
    (h : slices .object t = before ++ .block b :: after) :
    ∃ inside closing, b = inside ++ closing ∧ EqUpToCase closing Tags.object.closing
      ∧ t = (before.flatMap Slice.source ++ inside) ++ (closing ++ after.flatMap Slice.source)
      ∧ OccursAt Tags.object.closing t ((before.flatMap Slice.source).length + inside.length) := by
  have hmem : .block b ∈ sliceBlocks .object object_closing_ne_nil t := by
    rw [← slices_object, h]
    exact List.mem_append_right before List.mem_cons_self
  obtain ⟨inside, closing, hb, hcase⟩ := exists_closing_of_block_mem hmem
  have htext : t = (before.flatMap Slice.source ++ inside)
      ++ (closing ++ after.flatMap Slice.source) := by
    rw [← flatMap_source_slices .object t, h, List.flatMap_append, List.flatMap_cons]
    simp [Slice.source, hb]
  refine ⟨inside, closing, hb, hcase, htext, ?_⟩
  have hlength : closing.length = Tags.object.closing.length := by
    simpa using congrArg List.length hcase
  unfold OccursAt
  rw [htext, ← List.length_append, List.drop_left, ← hlength, List.take_left]
  exact hcase

/-- Where every tag is read, every block is kept. -/
theorem keepsBlocks_of_read (h : ∀ i, read i = tagAt (t.drop i)) :
    KeepsBlocks read 0 (slices .object t) := by
  intro before b q after hsplit
  obtain ⟨inside, closing, rfl, hcase, -, hoccurs⟩ := exists_occursAt_closing hsplit
  have hpos : 0 < closing.length := by
    have hlength : closing.length = Tags.object.closing.length := by
      simpa using congrArg List.length hcase
    rw [hlength]
    exact List.length_pos_iff.2 object_closing_ne_nil
  refine mem_tagsRead_iff.2
    ⟨(before.flatMap Slice.source).length + inside.length, ?_, ?_, ?_⟩
  · omega
  · simp only [List.length_append]
    omega
  · rw [h, tagAt_eq_closing_iff]
    exact occursAt_iff.1 hoccurs

/-- Counting the tags of a text finds out what a scan reports. -/
theorem blockCount_tagsRead (t : Text) :
    blockCount false (tagsRead (fun i => tagAt (t.drop i)) 0 t.length)
      = if .unterminated ∈ events .object t then none
        else some ((events .object t).countP Event.isBlock) := by
  have hread : ReadsTags (fun i => tagAt (t.drop i)) t := fun i => Or.inl rfl
  obtain ⟨hnone, hcounted⟩ := counted_sliceBlocks object_closing_ne_nil hread
    (List.drop_zero (l := t))
  rw [← slices_object] at hnone hcounted
  split
  · rename_i hopening
    exact hnone ((unterminated_mem_events_iff .object t).1 hopening) false
  · rename_i hopening
    rw [unterminated_mem_events_iff, Bool.not_eq_true] at hopening
    rw [countP_isBlock_events]
    exact (hcounted hopening).outside.2 (keepsBlocks_of_read fun i => rfl)

end Markup
end ChatText
