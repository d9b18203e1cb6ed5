import ChatText.Text.Piece

/-!
# Scans and the texts they come from

What a scan makes of a text depends only on what the recogniser says along the text:

* `scan_of_append`: the pieces behind any point are the scan of the text behind that point;
* `recognise_of_symbol`, `recognise_of_item`: a symbol was taken because nothing was recognised
  there, an item because exactly its symbols were;
* `scan_append`: two texts can be scanned apart if what follows the first one makes no
  difference anywhere in it;
* `scan_eq_iff`: the items that are taken are told by their positions, without scanning.
-/

namespace ChatText
namespace Piece

variable {α : Type}

/-- The value, if the piece is an item. -/
def value? : Piece α → Option α
  | symbol _ => none
  | item a _ => some a

/-- The recogniser finds no empty items, and none that reach beyond the text. -/
def Fits (recognise : Recogniser α) : Prop :=
  ∀ {t : Text} {a : α} {n : Nat}, recognise t = some (a, n) → 0 < n ∧ n ≤ t.length

/-- If each item takes `k` symbols or more, there are not many items. -/
theorem length_values_le {k : Nat} {pieces : List (Piece α)}
    (h : ∀ a s, item a s ∈ pieces → k ≤ s.length) :
    k * (pieces.filterMap value?).length ≤ (pieces.flatMap source).length := by
  induction pieces with
  | nil => simp
  | cons p pieces ih =>
    have ih' := ih fun a s hs => h a s (List.mem_cons_of_mem p hs)
    rw [List.flatMap_cons, List.length_append]
    cases p with
    | symbol c =>
      simp only [List.filterMap_cons, value?]
      omega
    | item a s =>
      have hs : k ≤ s.length := h a s List.mem_cons_self
      simp only [List.filterMap_cons, value?, List.length_cons, Nat.mul_succ, source]
      omega

/-! ## The pieces behind a point -/

/-- The pieces behind any point are the scan of the text behind that point. -/
theorem scan_of_append {recognise : Recogniser α} {t : Text} {before after : List (Piece α)}
    (h : scan recognise t = before ++ after) :
    scan recognise (after.flatMap source) = after := by
  induction before generalizing t with
  | nil =>
    have ht := flatMap_source_scan recognise t
    rw [h, List.nil_append] at ht
    rw [ht, h, List.nil_append]
  | cons p before ih =>
    cases t with
    | nil => simp at h
    | cons c t =>
      -- either way the rest of the text scans to the rest of the pieces
      cases hc : recognise (c :: t) with
      | none =>
        rw [scan_cons_of_none hc, List.cons_append, List.cons.injEq] at h
        exact ih h.2
      | some found =>
        obtain ⟨a, n⟩ := found
        rw [scan_cons_of_some hc, List.cons_append, List.cons.injEq] at h
        exact ih h.2

/-- Behind the text of some pieces stands the text of the others. -/
theorem drop_of_scan {recognise : Recogniser α} {t : Text} {before after : List (Piece α)}
    (h : scan recognise t = before ++ after) :
    t.drop (before.flatMap source).length = after.flatMap source := by
  have ht := flatMap_source_scan recognise t
  rw [h, List.flatMap_append] at ht
  rw [← ht, List.drop_left]

/-- Where a symbol was taken, nothing was recognised. -/
theorem recognise_of_symbol {recognise : Recogniser α} {t : Text} {c : Char}
    {before after : List (Piece α)} (h : scan recognise t = before ++ symbol c :: after) :
    recognise (c :: after.flatMap source) = none := by
  have hscan : scan recognise (c :: after.flatMap source) = symbol c :: after := scan_of_append h
  cases hc : recognise (c :: after.flatMap source) with
  | none => rfl
  | some found =>
    -- the scan would have taken an item
    obtain ⟨a, n⟩ := found
    rw [scan_cons_of_some hc] at hscan
    simp at hscan

/-- Where nothing is recognised all along a text, the scan takes its symbols. -/
theorem scan_eq_map_symbol {recognise : Recogniser α} {t : Text}
    (h : ∀ v, v <:+ t → recognise v = none) : scan recognise t = t.map symbol := by
  induction t with
  | nil => rfl
  | cons c t ih =>
    rw [scan_cons_of_none (h (c :: t) (List.suffix_refl _)), List.map_cons,
      ih fun v hv => h v (hv.trans (List.suffix_cons c t))]

/-- Where an item was taken, it was recognised in just the symbols it was taken from. -/
theorem recognise_of_item {recognise : Recogniser α} (hfits : Fits recognise) {t : Text} {a : α}
    {s : Text} {before after : List (Piece α)}
    (h : scan recognise t = before ++ item a s :: after) :
    recognise (s ++ after.flatMap source) = some (a, s.length) := by
  have hscan : scan recognise (s ++ after.flatMap source) = item a s :: after := scan_of_append h
  generalize s ++ after.flatMap source = u at hscan
  cases u with
  | nil => simp at hscan
  | cons c u =>
    cases hc : recognise (c :: u) with
    | none =>
      rw [scan_cons_of_none hc] at hscan
      simp at hscan
    | some found =>
      obtain ⟨b, n⟩ := found
      rw [scan_cons_of_some hc, List.cons.injEq, item.injEq] at hscan
      obtain ⟨⟨rfl, rfl⟩, -⟩ := hscan
      have hn := hfits hc
      rw [List.length_cons] at hn
      rw [List.length_cons, List.length_take, Nat.min_eq_left (by omega), Nat.sub_add_cancel hn.1]

/-! ## Scanning two texts apart -/

/-- What is recognised in front is the first item, and the scan goes on behind it. -/
theorem scan_append_of_some {recognise : Recogniser α} {s t : Text} {a : α} (hs : s ≠ [])
    (h : recognise (s ++ t) = some (a, s.length)) :
    scan recognise (s ++ t) = item a s :: scan recognise t := by
  cases s with
  | nil => exact absurd rfl hs
  | cons c s =>
    rw [List.cons_append] at h ⊢
    rw [scan_cons_of_some h, List.length_cons, Nat.add_sub_cancel, List.take_left, List.drop_left]

/-- If what follows `t` makes no difference at any point of `t`, the scan of the whole is the
scans of the parts. -/
theorem scan_append {recognise : Recogniser α} (hfits : Fits recognise) {t rest : Text}
    (h : ∀ v, v <:+ t → v ≠ [] → recognise (v ++ rest) = recognise v) :
    scan recognise (t ++ rest) = scan recognise t ++ scan recognise rest := by
  -- strong induction: an item moves the scan on by more than one symbol
  suffices ∀ n (v : Text), v.length ≤ n → v <:+ t →
      scan recognise (v ++ rest) = scan recognise v ++ scan recognise rest from
    this t.length t (Nat.le_refl _) (List.suffix_refl t)
  intro n
  induction n with
  | zero =>
    intro v hlen _
    rw [List.length_eq_zero_iff.1 (Nat.le_zero.1 hlen)]
    rfl
  | succ n ih =>
    intro v hlen hv
    cases v with
    | nil => rfl
    | cons c v =>
      rw [List.length_cons] at hlen
      have hrec : recognise (c :: (v ++ rest)) = recognise (c :: v) :=
        h (c :: v) hv (List.cons_ne_nil c v)
      have htail : v <:+ t := (List.suffix_cons c v).trans hv
      cases hc : recognise (c :: v) with
      | none =>
        rw [hc] at hrec
        rw [scan_cons_of_none hc, List.cons_append, scan_cons_of_none hrec, List.cons_append,
          ih v (by omega) htail]
      | some found =>
        obtain ⟨a, m⟩ := found
        rw [hc] at hrec
        -- the item ends in `v`, so `rest` stays whole
        have hm := hfits hc
        rw [List.length_cons] at hm
        have hle : m - 1 ≤ v.length := by omega
        rw [scan_cons_of_some hc, List.cons_append, scan_cons_of_some hrec, List.cons_append,
          List.take_append_of_le_length hle, List.drop_append_of_le_length hle,
          ih (v.drop (m - 1)) (by rw [List.length_drop]; omega)
            ((List.drop_suffix _ v).trans htail)]

/-! ## Which items are taken -/

/-- The item is taken from the text at position `i`, in the symbols `s`. -/
def TakenAt (pieces : List (Piece α)) (a : α) (s : Text) (i : Nat) : Prop :=
  ∃ before after, pieces = before ++ item a s :: after ∧ (before.flatMap source).length = i

/-- An item that is taken stands in the text. -/
theorem TakenAt.prefix_drop {pieces : List (Piece α)} {a : α} {s : Text} {i : Nat}
    (h : TakenAt pieces a s i) : s <+: (pieces.flatMap source).drop i := by
  obtain ⟨before, after, rfl, rfl⟩ := h
  rw [List.flatMap_append, List.drop_left, List.flatMap_cons, source]
  exact List.prefix_append _ _

theorem TakenAt.mem {pieces : List (Piece α)} {a : α} {s : Text} {i : Nat}
    (h : TakenAt pieces a s i) : item a s ∈ pieces := by
  obtain ⟨before, after, rfl, -⟩ := h
  exact List.mem_append_right before List.mem_cons_self

/-- An item is the first piece, or it is taken from what stands behind the first piece. -/
theorem takenAt_cons_iff {p : Piece α} {pieces : List (Piece α)} {a : α} {s : Text} {i : Nat} :
    TakenAt (p :: pieces) a s i
      ↔ p = item a s ∧ i = 0 ∨ ∃ j, TakenAt pieces a s j ∧ i = p.source.length + j := by
  constructor
  · rintro ⟨before, after, h, rfl⟩
    cases before with
    | nil =>
      rw [List.nil_append, List.cons.injEq] at h
      exact Or.inl ⟨h.1, rfl⟩
    | cons q before =>
      rw [List.cons_append, List.cons.injEq] at h
      obtain ⟨rfl, rfl⟩ := h
      exact Or.inr ⟨_, ⟨before, after, rfl, rfl⟩, by rw [List.flatMap_cons, List.length_append]⟩
  · rintro (⟨rfl, rfl⟩ | ⟨j, ⟨before, after, rfl, rfl⟩, rfl⟩)
    · exact ⟨[], pieces, rfl, rfl⟩
    · exact ⟨p :: before, after, rfl, by rw [List.flatMap_cons, List.length_append]⟩

/-- Every position of the text lies in one of the pieces. -/
theorem exists_piece_at {pieces : List (Piece α)} {i : Nat}
    (h : i < (pieces.flatMap source).length) :
    ∃ before p after, pieces = before ++ p :: after ∧ (before.flatMap source).length ≤ i
      ∧ i < (before.flatMap source).length + p.source.length := by
  induction pieces generalizing i with
  | nil => simp at h
  | cons p pieces ih =>
    rw [List.flatMap_cons, List.length_append] at h
    by_cases hi : i < p.source.length
    · exact ⟨[], p, pieces, rfl, Nat.zero_le i, by simpa using hi⟩
    · obtain ⟨before, q, after, rfl, hle, hlt⟩ := ih (i := i - p.source.length) (by omega)
      refine ⟨p :: before, q, after, rfl, ?_⟩
      rw [List.flatMap_cons, List.length_append]
      omega

/-- Of the items that are recognised in a text the scan takes each, unless it overlaps one that is
taken before it. -/
theorem exists_takenAt_of_recognise {recognise : Recogniser α} (hfits : Fits recognise) {t : Text}
    {a : α} {n i : Nat} (h : recognise (t.drop i) = some (a, n)) :
    ∃ b s j, TakenAt (scan recognise t) b s j ∧ j ≤ i ∧ i < j + s.length := by
  have hlt : i < ((scan recognise t).flatMap source).length := by
    have hn := hfits h
    rw [List.length_drop] at hn
    rw [flatMap_source_scan]
    omega
  obtain ⟨before, p, after, hscan, hle, hi⟩ := exists_piece_at hlt
  cases p with
  | item b s => exact ⟨b, s, _, ⟨before, after, hscan, rfl⟩, hle, hi⟩
  | symbol c =>
    -- the symbol stands at the position, so nothing is recognised there
    have hsymbol : i < (before.flatMap source).length + 1 := hi
    obtain rfl : i = (before.flatMap source).length := by omega
    rw [drop_of_scan hscan, List.flatMap_cons, source, List.singleton_append,
      recognise_of_symbol hscan] at h
    cases h

/-- The scan is the one way of taking recognised items out of a text that leaves none but those that
overlap one that is taken before them. -/
theorem scan_eq_iff {recognise : Recogniser α} (hfits : Fits recognise) {t : Text}
    {pieces : List (Piece α)} :
    scan recognise t = pieces ↔ pieces.flatMap source = t
      ∧ (∀ a s i, TakenAt pieces a s i → recognise (t.drop i) = some (a, s.length))
      ∧ ∀ a n i, recognise (t.drop i) = some (a, n) →
          ∃ b s j, TakenAt pieces b s j ∧ j ≤ i ∧ i < j + s.length := by
  constructor
  · rintro rfl
    refine ⟨flatMap_source_scan recognise t, ?_, fun a n i => exists_takenAt_of_recognise hfits⟩
    rintro a s i ⟨before, after, hscan, rfl⟩
    rw [drop_of_scan hscan, List.flatMap_cons, source, recognise_of_item hfits hscan]
  · rintro ⟨rfl, htaken, hnone⟩
    induction pieces with
    | nil => rfl
    | cons p pieces ih =>
      have hdrop : ∀ i, ((p :: pieces).flatMap source).drop (p.source.length + i)
          = (pieces.flatMap source).drop i := by
        intro i
        rw [List.flatMap_cons, ← List.drop_drop, List.drop_left]
      -- behind the first piece the other pieces are such a way
      have hrest : scan recognise (pieces.flatMap source) = pieces := by
        refine ih (fun a s i h => ?_) fun a n i h => ?_
        · rw [← hdrop]
          exact htaken a s _ (takenAt_cons_iff.2 (Or.inr ⟨i, h, rfl⟩))
        · rw [← hdrop] at h
          obtain ⟨b, s, j, hb, hle, hlt⟩ := hnone a n _ h
          rcases takenAt_cons_iff.1 hb with ⟨rfl, rfl⟩ | ⟨k, hk, rfl⟩
          · rw [source] at hlt
            omega
          · exact ⟨b, s, k, hk, by omega, by omega⟩
      cases p with
      | symbol c =>
        have hfirst : recognise (c :: pieces.flatMap source) = none := by
          cases hsome : recognise (c :: pieces.flatMap source) with
          | none => rfl
          | some found =>
            obtain ⟨b, s, j, hb, hle, -⟩ := hnone found.1 found.2 0 hsome
            rcases takenAt_cons_iff.1 hb with ⟨hsymbol, -⟩ | ⟨k, -, rfl⟩
            · cases hsymbol
            · rw [source, List.length_singleton] at hle
              omega
        rw [List.flatMap_cons, source, List.singleton_append, scan_cons_of_none hfirst, hrest]
      | item a s =>
        have hfirst := htaken a s 0 (takenAt_cons_iff.2 (Or.inl ⟨rfl, rfl⟩))
        rw [List.drop_zero, List.flatMap_cons, source] at hfirst
        have hs : s ≠ [] := List.length_pos_iff.1 (hfits hfirst).1
        rw [List.flatMap_cons, source, scan_append_of_some hs hfirst, hrest]

end Piece
end ChatText
