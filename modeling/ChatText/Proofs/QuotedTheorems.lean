import ChatText.Text.Quoted
import ChatText.Proofs.LineTheorems
import Mathlib.Data.Nat.Digits.Defs

/-!
# Quoted text reads back

Quoted text is escaped one symbol at a time, and what is written of a symbol shows where it ends: a
symbol that stands for itself is no backslash, an escape by one letter ends with the letter, and
the digits of a code point end with the closing brace. So the first symbol of what is written can
be read off whatever follows it (`unquoteSymbol_append`), and quoting tells all texts apart
(`quoted_inj`). No escape holds a newline (`newline_not_mem_quoted`).
-/

namespace ChatText

/-! ## Hexadecimal numerals -/

/-- The value of a hexadecimal digit in lower case. -/
def hexDigitValue (c : Char) : Nat :=
  if c.isDigit then c.toNat - '0'.toNat else 10 + (c.toNat - 'a'.toNat)

/-- The number that hexadecimal digits stand for. -/
def hexValue (digits : Text) : Nat := digits.foldl (fun n c => 16 * n + hexDigitValue c) 0

theorem hexDigitValue_digitChar : ∀ d < 16, hexDigitValue (Nat.digitChar d) = d := by decide

theorem hexValue_append_singleton (digits : Text) (c : Char) :
    hexValue (digits ++ [c]) = 16 * hexValue digits + hexDigitValue c := by
  rw [hexValue, List.foldl_append]
  rfl

/-- The hexadecimal digits of a number read back as the number. -/
theorem hexValue_toDigits (n : Nat) : hexValue (Nat.toDigits 16 n) = n := by
  induction n using Nat.base_induction 16 (by decide) with
  | single d hd =>
    rw [Nat.toDigits_of_lt_base hd, hexValue, List.foldl_cons, List.foldl_nil,
      hexDigitValue_digitChar d hd, Nat.mul_zero, Nat.zero_add]
  | digit n d hd hpos ih =>
    rw [← Nat.toDigits_append_toDigits (by decide) hpos hd, Nat.toDigits_of_lt_base hd,
      hexValue_append_singleton, ih, hexDigitValue_digitChar d hd]

/-- The sixteen hexadecimal digits in lower case. -/
def hexDigits : Text := "0123456789abcdef".toList

theorem digitChar_mem_hexDigits : ∀ d < 16, Nat.digitChar d ∈ hexDigits := by decide

theorem mem_hexDigits_of_mem_toDigits {n : Nat} {c : Char} (hc : c ∈ Nat.toDigits 16 n) :
    c ∈ hexDigits := by
  induction n using Nat.base_induction 16 (by decide) with
  | single d hd =>
    rw [Nat.toDigits_of_lt_base hd, List.mem_singleton] at hc
    rw [hc]
    exact digitChar_mem_hexDigits d hd
  | digit n d hd hpos ih =>
    rw [← Nat.toDigits_append_toDigits (by decide) hpos hd, Nat.toDigits_of_lt_base hd,
      List.mem_append, List.mem_singleton] at hc
    rcases hc with hc | rfl
    · exact ih hc
    · exact digitChar_mem_hexDigits d hd

/-! ## Reading a symbol back -/

/-- The symbol that an escape without its backslash stands for, and what follows the escape. -/
def unescape : Text → Option (Char × Text)
  | '0' :: t => some ('\x00', t)
  | 't' :: t => some ('\t', t)
  | 'r' :: t => some ('\r', t)
  | 'n' :: t => some ('\n', t)
  | 'u' :: '\x7b' :: t =>
    some (Char.ofNat (hexValue (t.takeWhile (· ≠ '\x7d'))), (t.dropWhile (· ≠ '\x7d')).tail)
  | c :: t => some (c, t)
  | [] => none

/-- The first symbol of a text that is written symbol by symbol, and what follows it. -/
def unquoteSymbol : Text → Option (Char × Text)
  | '\\' :: t => unescape t
  | c :: t => some (c, t)
  | [] => none

theorem unquoteSymbol_codePointEscape_append (c : Char) (rest : Text) :
    unquoteSymbol (codePointEscape c ++ rest) = some (c, rest) := by
  have hbrace : '\x7d' ∉ Nat.toDigits 16 c.toNat :=
    fun hmem => absurd (mem_hexDigits_of_mem_toDigits hmem) (by decide)
  have hshape : codePointEscape c ++ rest
      = '\\' :: 'u' :: '\x7b' :: (Nat.toDigits 16 c.toNat ++ '\x7d' :: rest) := by
    simp [codePointEscape]
  rw [hshape, unquoteSymbol, unescape,
    takeWhile_append_of_head? (forall_ne_of_not_mem hbrace) (by simp),
    dropWhile_append_of_head? (forall_ne_of_not_mem hbrace) (by simp),
    hexValue_toDigits, Char.ofNat_toNat, List.tail_cons]

/-- What is written of a symbol reads back as the symbol, whatever follows it. -/
theorem unquoteSymbol_append (c : Char) (rest : Text) :
    unquoteSymbol (quotedSymbol c ++ rest) = some (c, rest) := by
  unfold quotedSymbol
  split
  · rfl
  · rfl
  · rfl
  · rfl
  · rfl
  · rfl
  · rename_i hbackslash
    split
    · rw [List.singleton_append, unquoteSymbol]
      exact hbackslash
    · exact unquoteSymbol_codePointEscape_append c rest

/-- Quoting tells all texts apart. -/
theorem quoted_inj {s t : Text} : quoted s = quoted t ↔ s = t := by
  refine ⟨fun h => ?_, congrArg quoted⟩
  unfold quoted at h
  rw [List.append_cancel_right_eq, List.append_cancel_left_eq] at h
  induction s generalizing t with
  | nil =>
    cases t with
    | nil => rfl
    | cons d t =>
      have hread := unquoteSymbol_append d (t.flatMap quotedSymbol)
      rw [← List.flatMap_cons, ← h] at hread
      cases hread
  | cons c s ih =>
    have hread := unquoteSymbol_append c (s.flatMap quotedSymbol)
    rw [← List.flatMap_cons, h] at hread
    cases t with
    | nil => cases hread
    | cons d t =>
      rw [List.flatMap_cons, unquoteSymbol_append, Option.some.injEq, Prod.mk.injEq] at hread
      rw [hread.1, ih hread.2.symm]

/-! ## Newlines -/

theorem newline_not_mem_codePointEscape (c : Char) : '\n' ∉ codePointEscape c := by
  intro hmem
  simp only [codePointEscape, List.mem_append, or_assoc] at hmem
  rcases hmem with hmem | hmem | hmem
  · exact absurd hmem (by decide)
  · exact absurd (mem_hexDigits_of_mem_toDigits hmem) (by decide)
  · exact absurd hmem (by decide)

theorem newline_not_mem_quotedSymbol (c : Char) : '\n' ∉ quotedSymbol c := by
  unfold quotedSymbol
  split
  · decide
  · decide
  · decide
  · decide
  · decide
  · decide
  · rename_i hnewline _ _
    split
    · rw [List.mem_singleton]
      exact fun h => hnewline h.symm
    · exact newline_not_mem_codePointEscape c

/-- Quoted text stands on one line. -/
theorem newline_not_mem_quoted (t : Text) : '\n' ∉ quoted t := by
  unfold quoted
  simp only [List.mem_append, List.mem_flatMap, not_or, not_exists, not_and]
  exact ⟨⟨by decide, fun c _ => newline_not_mem_quotedSymbol c⟩, by decide⟩

end ChatText
