import ChatText.Marker.Basic
import ChatText.Proofs.ScanTheorems
import Mathlib.Data.List.TakeWhile

/-!
# The form of a marker

`enclose d` is the marker with the digits `d`. The two recognisers are characterised by the
markers that a text starts with (`any_eq_some_iff`, `known_eq_some_iff`), and a text can be cut
without changing what is recognised wherever one of the two symbols at the cut belongs to no
marker (`scan_known_append`).
-/

namespace ChatText
namespace Marker

/-- The symbols that markers are made of. -/
def IsSymbol (c : Char) : Prop := c = delimiter ∨ c.isDigit = true

instance (c : Char) : Decidable (IsSymbol c) :=
  inferInstanceAs (Decidable (c = delimiter ∨ c.isDigit = true))

/-- A run of ASCII digits, at least one. -/
def IsDigits (d : Text) : Prop := d ≠ [] ∧ ∀ c ∈ d, c.isDigit = true

/-- The marker with the given digits. -/
def enclose (d : Text) : Text := delimiter :: (d ++ [delimiter])

theorem write_eq_enclose (code : UInt32) : write code = enclose (decimal code.toNat) := rfl

@[simp] theorem length_enclose (d : Text) : (enclose d).length = d.length + 2 := by
  simp [enclose]

theorem delimiter_not_digit : delimiter.isDigit = false := by decide

theorem isSymbol_of_mem_enclose {d : Text} (hd : IsDigits d) {c : Char} (hc : c ∈ enclose d) :
    IsSymbol c := by
  simp only [enclose, List.mem_cons, List.mem_append, List.not_mem_nil, or_false] at hc
  rcases hc with rfl | hc | rfl
  · exact Or.inl rfl
  · exact Or.inr (hd.2 c hc)
  · exact Or.inl rfl

theorem isSymbol_iff_toNat {c : Char} :
    IsSymbol c ↔ c.toNat = 36 ∨ 48 ≤ c.toNat ∧ c.toNat ≤ 57 := by
  have hdelimiter : c = delimiter ↔ c.toNat = 36 := Char.toNat_inj.symm
  have hdigit : c.isDigit = true ↔ 48 ≤ c.toNat ∧ c.toNat ≤ 57 := by
    simp [Char.isDigit, UInt32.le_iff_toNat_le]
  rw [IsSymbol, hdelimiter, hdigit]

/-- The symbols of markers are no blanks. -/
theorem IsSymbol.not_blank {c : Char} (hc : IsSymbol c) : isBlank c = false := by
  rw [isSymbol_iff_toNat] at hc
  simp only [isBlank, blankRanges, CodeRanges.has]
  grind

/-- The digits of a number are digits. -/
theorem isDigits_decimal (n : Nat) : IsDigits (decimal n) :=
  ⟨Nat.toDigits_ne_nil, fun _ hc => Nat.isDigit_of_mem_toDigits (by decide) (by decide) hc⟩

/-! ## What is recognised -/

/-- `digits?` reads the digits of the marker in front. -/
theorem digits?_eq_some_iff {t d : Text} :
    digits? t = some d ↔ IsDigits d ∧ enclose d <+: t := by
  constructor
  · intro h
    cases t with
    | nil => simp [digits?] at h
    | cons c t =>
      rw [digits?] at h
      split at h
      · rename_i hform
        obtain ⟨rfl, hne, hclose⟩ := hform
        rw [Option.some.injEq] at h
        subst h
        refine ⟨⟨hne, fun c hc => List.mem_takeWhile_imp hc⟩, ?_⟩
        obtain ⟨after, hafter⟩ := List.head?_eq_some_iff.1 hclose
        refine ⟨after, ?_⟩
        have hsplit : t.takeWhile Char.isDigit ++ delimiter :: after = t := by
          rw [← hafter, List.takeWhile_append_dropWhile]
        rw [enclose, List.cons_append, List.append_assoc, List.singleton_append, hsplit]
      · cases h
  · rintro ⟨⟨hne, hdigit⟩, after, rfl⟩
    have htext : enclose d ++ after = delimiter :: (d ++ delimiter :: after) := by
      simp [enclose]
    -- the run of digits ends at the closing delimiter
    have htake : (d ++ delimiter :: after).takeWhile Char.isDigit = d := by
      rw [List.takeWhile_append_of_pos hdigit,
        List.takeWhile_cons_of_neg (by simp [delimiter_not_digit]), List.append_nil]
    have hdrop : (d ++ delimiter :: after).dropWhile Char.isDigit = delimiter :: after := by
      rw [List.dropWhile_append_of_pos hdigit,
        List.dropWhile_cons_of_neg (by simp [delimiter_not_digit])]
    rw [htext, digits?, htake, hdrop, if_pos ⟨rfl, hne, rfl⟩]

/-- Only a delimiter opens a marker. -/
theorem digits?_cons_of_ne {c : Char} (h : c ≠ delimiter) (t : Text) :
    digits? (c :: t) = none := by
  rw [digits?, if_neg fun hform => h hform.1]

/-- Every marker in front is recognised, in all its symbols. -/
theorem any_eq_some_iff {t d : Text} {n : Nat} :
    any t = some (d, n) ↔ IsDigits d ∧ enclose d <+: t ∧ n = d.length + 2 := by
  simp only [any, Option.bind_eq_bind, Option.bind_eq_some_iff, Option.pure_def,
    Option.some.injEq, Prod.mk.injEq, digits?_eq_some_iff]
  constructor
  · rintro ⟨e, ⟨he, hstart⟩, rfl, rfl⟩
    exact ⟨he, hstart, rfl⟩
  · rintro ⟨hd, hstart, rfl⟩
    exact ⟨d, ⟨hd, hstart⟩, rfl, rfl⟩

theorem decimalValue32?_eq_some_iff {d : Text} {code : UInt32} :
    decimalValue32? d = some code ↔ decimalValue d = code.toNat := by
  rw [decimalValue32?, Option.ite_none_right_eq_some, Option.some.injEq]
  constructor
  · rintro ⟨hlt, rfl⟩
    exact (UInt32.toNat_ofNat_of_lt hlt).symm
  · intro h
    rw [h]
    exact ⟨code.toNat_lt, UInt32.ofNat_toNat⟩

/-- A marker in front is recognised as the known code that its digits denote. -/
theorem known_eq_some_iff {isKnown : UInt32 → Bool} {t : Text} {code : UInt32} {n : Nat} :
    known isKnown t = some (code, n) ↔
      ∃ d, IsDigits d ∧ enclose d <+: t ∧ decimalValue d = code.toNat ∧ isKnown code = true
        ∧ n = d.length + 2 := by
  simp only [known, Option.bind_eq_bind, Option.bind_eq_some_iff, digits?_eq_some_iff,
    decimalValue32?_eq_some_iff, Option.ite_none_right_eq_some, Option.some.injEq, Prod.mk.injEq]
  constructor
  · rintro ⟨d, ⟨hd, hstart⟩, code', hvalue, hknown, rfl, rfl⟩
    exact ⟨d, hd, hstart, hvalue, hknown, rfl⟩
  · rintro ⟨d, hd, hstart, hvalue, hknown, rfl⟩
    exact ⟨d, ⟨hd, hstart⟩, code, hvalue, hknown, rfl, rfl⟩

theorem any_fits : Piece.Fits any := by
  intro t d n h
  obtain ⟨-, hstart, rfl⟩ := any_eq_some_iff.1 h
  have hle := hstart.length_le
  rw [length_enclose] at hle
  omega

theorem known_fits (isKnown : UInt32 → Bool) : Piece.Fits (known isKnown) := by
  intro t code n h
  obtain ⟨d, -, hstart, -, -, rfl⟩ := known_eq_some_iff.1 h
  have hle := hstart.length_le
  rw [length_enclose] at hle
  omega

theorem known_cons_of_ne (isKnown : UInt32 → Bool) {c : Char} (h : c ≠ delimiter) (t : Text) :
    known isKnown (c :: t) = none := by
  simp [known, digits?_cons_of_ne h]

theorem any_cons_of_ne {c : Char} (h : c ≠ delimiter) (t : Text) : any (c :: t) = none := by
  simp [any, digits?_cons_of_ne h]

/-- The marker of a code is found, known or not, and whatever follows it. -/
theorem scan_any_write_append (code : UInt32) (t : Text) :
    Piece.scan any (write code ++ t)
      = .item (decimal code.toNat) (write code) :: Piece.scan any t := by
  refine Piece.scan_append_of_some (List.cons_ne_nil _ _) (any_eq_some_iff.2 ?_)
  exact ⟨isDigits_decimal _, List.prefix_append _ _, by rw [write_eq_enclose, length_enclose]⟩

/-- The marker of a known code is found, whatever follows it. -/
theorem scan_known_write_append {isKnown : UInt32 → Bool} {code : UInt32}
    (hknown : isKnown code = true) (t : Text) :
    Piece.scan (known isKnown) (write code ++ t)
      = .item code (write code) :: Piece.scan (known isKnown) t := by
  refine Piece.scan_append_of_some (List.cons_ne_nil _ _) (known_eq_some_iff.2 ?_)
  exact ⟨decimal code.toNat, isDigits_decimal _, List.prefix_append _ _, decimalValue_decimal _,
    hknown, by rw [write_eq_enclose, length_enclose]⟩

/-! ## Cutting a text between markers -/

/-- No marker reaches from the end of `t` into `rest`: one of the two symbols at the cut belongs
to no marker. -/
def Seam (t rest : Text) : Prop :=
  (∀ c ∈ t.getLast?, ¬ IsSymbol c) ∨ ∀ c ∈ rest.head?, ¬ IsSymbol c

/-- What starts the text before a cut ends before it or reaches beyond it by at least one symbol. -/
theorem prefix_append_cases {w t rest : Text} (h : w <+: t ++ rest) :
    w <+: t ∨ ∃ c beyond, c :: beyond <+: rest ∧ w = t ++ c :: beyond := by
  rcases List.prefix_or_prefix_of_prefix h (List.prefix_append t rest) with hin | ⟨beyond, rfl⟩
  · exact Or.inl hin
  · rw [List.prefix_append_right_inj] at h
    cases beyond with
    | nil => exact Or.inl ⟨[], by rw [List.append_nil, List.append_nil]⟩
    | cons c beyond => exact Or.inr ⟨c, beyond, h, rfl⟩

theorem Seam.of_suffix {t v rest : Text} (h : Seam t rest) (hv : v <:+ t) : Seam v rest := by
  obtain ⟨u, rfl⟩ := hv
  rcases h with h | h
  · refine Or.inl fun c hc => h c ?_
    rw [List.getLast?_append, hc]
    rfl
  · exact Or.inr h

/-- A marker that starts before a seam ends before it. -/
theorem enclose_prefix_append_iff {d v rest : Text} (hd : IsDigits d) (hv : v ≠ [])
    (hseam : Seam v rest) : enclose d <+: v ++ rest ↔ enclose d <+: v := by
  refine ⟨fun h => ?_, fun h => h.trans (List.prefix_append v rest)⟩
  rcases prefix_append_cases h with hin | ⟨c, beyond, ⟨after, rfl⟩, hbeyond⟩
  · exact hin
  · -- the marker would hold both symbols at the cut
    have hmem : ∀ x ∈ v ++ c :: beyond, IsSymbol x := fun x hx =>
      isSymbol_of_mem_enclose hd (hbeyond ▸ hx)
    rcases hseam with hlast | hhead
    · exact absurd (hmem _ (List.mem_append_left _ (List.getLast_mem hv)))
        (hlast _ (List.getLast?_eq_some_getLast hv))
    · exact absurd (hmem c (List.mem_append_right v List.mem_cons_self)) (hhead c rfl)

theorem digits?_append {v rest : Text} (hv : v ≠ []) (hseam : Seam v rest) :
    digits? (v ++ rest) = digits? v := by
  refine Option.ext fun d => ?_
  rw [digits?_eq_some_iff, digits?_eq_some_iff]
  exact and_congr_right fun hd => enclose_prefix_append_iff hd hv hseam

/-- Two texts with a seam between them can be searched for known codes apart. -/
theorem scan_known_append {isKnown : UInt32 → Bool} {t rest : Text} (hseam : Seam t rest) :
    Piece.scan (known isKnown) (t ++ rest)
      = Piece.scan (known isKnown) t ++ Piece.scan (known isKnown) rest :=
  Piece.scan_append (known_fits isKnown) fun v hv hne => by
    rw [known, known, digits?_append hne (hseam.of_suffix hv)]

/-- Two texts with a seam between them can be searched for markers apart. -/
theorem scan_any_append {t rest : Text} (hseam : Seam t rest) :
    Piece.scan any (t ++ rest) = Piece.scan any t ++ Piece.scan any rest :=
  Piece.scan_append any_fits fun v hv hne => by
    rw [any, any, digits?_append hne (hseam.of_suffix hv)]

end Marker
end ChatText
