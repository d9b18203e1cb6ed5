import ChatText.Proofs.StripTheorems

/-!
# Which markers are deleted

Markers may share a delimiter, and then only one of them can be deleted. `Deletes` says what is
deleted by positions in the text and without a scan: every marker, unless it overlaps one that is
deleted and starts before it. There is one way to do that (`deletes_iff`), and it is what stripping
does (`strip_deletes_all_markers`).
-/

namespace ChatText
namespace Marker

open Piece (TakenAt)

/-- The marker with the digits `d` stands in the text from position `i` on. -/
def StandsAt (d t : Text) (i : Nat) : Prop := IsDigits d ∧ enclose d <+: t.drop i

/-- The pieces are a text with its markers deleted: a symbol is kept, and an item is a marker that
is deleted. A marker of the text is deleted, or it overlaps one that is and starts before it. -/
structure Deletes (pieces : List (Piece Text)) (t : Text) : Prop where
  text : pieces.flatMap Piece.source = t
  isMarker : ∀ d s, .item d s ∈ pieces → IsDigits d ∧ s = enclose d
  missesNone : ∀ d i, StandsAt d t i → TakenAt pieces d (enclose d) i
    ∨ ∃ e j, TakenAt pieces e (enclose e) j ∧ j < i ∧ i < j + (enclose e).length

variable {t d : Text} {i n : Nat} {pieces : List (Piece Text)}

/-- A marker stands where one is recognised. -/
theorem any_drop_eq_some_iff :
    any (t.drop i) = some (d, n) ↔ StandsAt d t i ∧ n = d.length + 2 := by
  rw [any_eq_some_iff, StandsAt, and_assoc]

/-- From one position on only one marker stands. -/
theorem StandsAt.unique {e : Text} (h : StandsAt d t i) (h' : StandsAt e t i) : d = e := by
  have hd := any_drop_eq_some_iff.2 ⟨h, rfl⟩
  rw [any_drop_eq_some_iff.2 ⟨h', rfl⟩, Option.some.injEq, Prod.mk.injEq] at hd
  exact hd.1.symm

/-- What is deleted from a text is a marker that stands there. -/
theorem Deletes.standsAt (h : Deletes pieces t) {s : Text} (hd : TakenAt pieces d s i) :
    StandsAt d t i ∧ s = enclose d := by
  obtain ⟨hdigits, rfl⟩ := h.isMarker d s hd.mem
  have hstart := hd.prefix_drop
  rw [h.text] at hstart
  exact ⟨⟨hdigits, hstart⟩, rfl⟩

/-- A text has its markers deleted in one way, and the scan for markers finds it. -/
theorem deletes_iff : Deletes pieces t ↔ Piece.scan any t = pieces := by
  rw [Piece.scan_eq_iff any_fits]
  constructor
  · intro h
    refine ⟨h.text, fun d s i hd => ?_, fun d n i hd => ?_⟩
    · obtain ⟨hstands, rfl⟩ := h.standsAt hd
      rw [any_drop_eq_some_iff, length_enclose]
      exact ⟨hstands, rfl⟩
    · rcases h.missesNone d i (any_drop_eq_some_iff.1 hd).1 with htaken | ⟨e, j, htaken, hlt, hend⟩
      · exact ⟨d, _, i, htaken, Nat.le_refl i, by rw [length_enclose]; omega⟩
      · exact ⟨e, _, j, htaken, Nat.le_of_lt hlt, hend⟩
  · rintro ⟨htext, htaken, hnone⟩
    have hstands : ∀ {d s i}, TakenAt pieces d s i → StandsAt d t i ∧ s = enclose d := by
      intro d s i hd
      obtain ⟨hstands, hlen⟩ := any_drop_eq_some_iff.1 (htaken d s i hd)
      have hstart := hd.prefix_drop
      rw [htext] at hstart
      -- both start the text from the position on, and they are equally long
      refine ⟨hstands, List.IsPrefix.eq_of_length ?_ (by rw [hlen, length_enclose])⟩
      exact List.prefix_of_prefix_length_le hstart hstands.2 (by rw [hlen, length_enclose])
    refine ⟨htext, fun d s hmem => ?_, fun d i hd => ?_⟩
    · obtain ⟨before, after, hpieces⟩ := List.append_of_mem hmem
      obtain ⟨hd, hs⟩ := hstands ⟨before, after, hpieces, rfl⟩
      exact ⟨hd.1, hs⟩
    · obtain ⟨e, s, j, he, hle, hlt⟩ := hnone d _ i (any_drop_eq_some_iff.2 ⟨hd, rfl⟩)
      obtain ⟨hstandsAt, rfl⟩ := hstands he
      rcases Nat.lt_or_eq_of_le hle with hbefore | rfl
      · exact Or.inr ⟨e, j, he, hbefore, hlt⟩
      · rw [hd.unique hstandsAt]
        exact Or.inl he

/-- **Stripping deletes all markers and nothing else.** A blank text becomes empty. Any other text
is in one way symbols and markers in order, so that no marker of the text is missed but those that
overlap one of these and start behind it; what stripping leaves is the symbols. -/
theorem strip_deletes_all_markers (t : Text) :
    if isBlankText t then strip t = []
    else ∃ pieces, (∀ pieces', Deletes pieces' t ↔ pieces' = pieces)
      ∧ strip t = pieces.filterMap Piece.symbol? := by
  split
  · rename_i hblank
    rw [strip, if_pos hblank]
  · rename_i hblank
    refine ⟨Piece.scan any t, fun pieces' => ?_, strip_of_not_blank (by simpa using hblank)⟩
    rw [deletes_iff]
    exact eq_comm

/-- In a chain of markers every second one overlaps the one in front of it and is not deleted. -/
example : strip "$1$2$3$4$5".toList = "24$5".toList := by decide

end Marker
end ChatText
