import ChatText.Marker.Price
import ChatText.Proofs.TokenTheorems
import Mathlib.Algebra.Order.BigOperators.Group.List
import Mathlib.Algebra.Order.Ring.Nat

/-!
# The price and the emoticons that are read

A price is found without reading the message as tokens, by a search that goes from delimiter to
delimiter. It finds the markers that a reading takes for emoticons (`emoticonCodes_findFrom`), so
the price is the sum of the prices of these emoticons, as far as 64 bits hold it (`price_eq_mod`).

A marker takes three symbols or more, so 64 bits hold the sum for each text of less than
`3 * (2 ^ 32 + 2)` symbols (`sumOfPrices_lt`), and not for each text of that length
(`exists_price_ne_sumOfPrices`).
-/

namespace ChatText

variable {r : Registry} {t rest between : Text} {code : UInt32}

namespace Marker

variable {isKnown : UInt32 → Bool}

/-! ## One marker -/

theorem knownCode?_eq_some_iff :
    knownCode? isKnown between = some code ↔
      IsDigits between ∧ decimalValue between = code.toNat ∧ isKnown code = true := by
  simp only [knownCode?, IsDigits, List.all_eq_true, Option.ite_none_right_eq_some,
    Option.filter_eq_some_iff, decimalValue32?_eq_some_iff]

theorem enclose_append (d rest : Text) :
    enclose d ++ rest = delimiter :: (d ++ delimiter :: rest) := by
  rw [enclose, List.cons_append, List.append_assoc, List.singleton_append]

/-- No digits of a marker reach over a delimiter. -/
theorem eq_of_enclose_prefix {d : Text} (hd : IsDigits d) (hbetween : delimiter ∉ between)
    (h : enclose d <+: enclose between ++ rest) : d = between := by
  obtain ⟨after, hafter⟩ := h
  rw [enclose_append, enclose_append, List.cons.injEq] at hafter
  have hdelimiter : delimiter ∉ d := by
    intro hmem
    have hdigit := hd.2 delimiter hmem
    rw [delimiter_not_digit] at hdigit
    cases hdigit
  exact (append_inj_of_head? (forall_ne_of_not_mem hdelimiter) (forall_ne_of_not_mem hbetween)
    (by simp) (by simp) hafter.2).1

/-- From one delimiter to the next a known code is written, or no known marker starts there. -/
theorem known_enclose_append (isKnown : UInt32 → Bool) (hbetween : delimiter ∉ between)
    (rest : Text) :
    known isKnown (enclose between ++ rest)
      = (knownCode? isKnown between).map fun code => (code, (enclose between).length) := by
  refine Option.ext fun found => ?_
  obtain ⟨code, n⟩ := found
  rw [known_eq_some_iff, Option.map_eq_some_iff]
  constructor
  · rintro ⟨d, hd, hstart, hvalue, hknown, rfl⟩
    obtain rfl := eq_of_enclose_prefix hd hbetween hstart
    exact ⟨code, knownCode?_eq_some_iff.2 ⟨hd, hvalue, hknown⟩, by rw [length_enclose]⟩
  · rintro ⟨code', hcode, hpair⟩
    obtain ⟨rfl, rfl⟩ := Prod.mk.inj hpair
    obtain ⟨hd, hvalue, hknown⟩ := knownCode?_eq_some_iff.1 hcode
    exact ⟨between, hd, List.prefix_append _ _, hvalue, hknown, length_enclose between⟩

/-- A single delimiter makes no marker. -/
theorem known_cons_of_not_mem (isKnown : UInt32 → Bool) (hbetween : delimiter ∉ between) :
    known isKnown (delimiter :: between) = none := by
  refine Option.eq_none_iff_forall_ne_some.2 fun found hfound => ?_
  obtain ⟨d, -, hstart, -⟩ := known_eq_some_iff.1 hfound
  have hmem : delimiter ∈ d ++ [delimiter] :=
    List.mem_append_right d (List.mem_singleton_self delimiter)
  exact hbetween ((List.cons_prefix_cons.1 hstart).2.mem hmem)

end Marker

open Marker (delimiter enclose knownCode? find findFrom)

/-! ## The search -/

/-- A known code between two delimiters is read. -/
theorem emoticonCodes_enclose_of_some (hbetween : delimiter ∉ between)
    (hcode : knownCode? r.isKnown between = some code) (rest : Text) :
    emoticonCodes r (enclose between ++ rest) = code :: emoticonCodes r rest := by
  have hne : enclose between ≠ [] := List.cons_ne_nil _ _
  have hmarker := Marker.known_enclose_append r.isKnown hbetween rest
  rw [hcode, Option.map_some] at hmarker
  rw [emoticonCodes_eq, emoticonCodes_eq, Piece.scan_append_of_some hne hmarker]
  rfl

/-- Without one the second delimiter is left to open a marker. -/
theorem emoticonCodes_enclose_of_none (hbetween : delimiter ∉ between)
    (hcode : knownCode? r.isKnown between = none) (rest : Text) :
    emoticonCodes r (enclose between ++ rest) = emoticonCodes r (delimiter :: rest) := by
  have hnone := Marker.known_enclose_append r.isKnown hbetween rest
  rw [hcode, Option.map_none, Marker.enclose_append] at hnone
  rw [Marker.enclose_append, emoticonCodes_cons_of_none r hnone,
    emoticonCodes_append_of_not_mem r hbetween]

/-- What the search has read from the last delimiter on. -/
def Marker.inHand : Option Text → Text
  | none => []
  | some read => delimiter :: read.reverse

/-- Behind the last delimiter nothing is read. -/
theorem emoticonCodes_inHand {read? : Option Text} (hread : ∀ read ∈ read?, delimiter ∉ read) :
    emoticonCodes r (Marker.inHand read?) = [] := by
  cases read? with
  | none => rfl
  | some read =>
    have hbetween : delimiter ∉ read.reverse := by simpa using hread read rfl
    have hnone := Marker.known_cons_of_not_mem r.isKnown hbetween
    have hrest := emoticonCodes_append_of_not_mem r hbetween []
    rw [List.append_nil] at hrest
    rw [Marker.inHand, emoticonCodes_cons_of_none r hnone, hrest]
    rfl

/-- What the search finds is the first emoticon, with the others behind it; where it finds nothing
no emoticon is read. -/
theorem emoticonCodes_findFrom (read? : Option Text) (hread : ∀ read ∈ read?, delimiter ∉ read)
    (t : Text) :
    emoticonCodes r (Marker.inHand read? ++ t)
      = match findFrom r.isKnown read? t with
        | none => []
        | some (code, rest) => code :: emoticonCodes r rest := by
  induction t generalizing read? with
  | nil =>
    rw [List.append_nil]
    exact emoticonCodes_inHand hread
  | cons c t ih =>
    rw [findFrom]
    by_cases hc : c = delimiter
    · subst hc
      rw [if_pos rfl]
      cases read? with
      | none => exact ih (some []) (by simp)
      | some read =>
        have hbetween : delimiter ∉ read.reverse := by simpa using hread read rfl
        rw [Option.bind_some, Marker.inHand, List.cons_append, ← Marker.enclose_append]
        cases hcode : knownCode? r.isKnown read.reverse with
        | some code => exact emoticonCodes_enclose_of_some hbetween hcode t
        | none =>
          rw [emoticonCodes_enclose_of_none hbetween hcode]
          exact ih (some []) (by simp)
    · have hread' : ∀ read ∈ read?.map (c :: ·), delimiter ∉ read := by
        simpa [Ne.symm hc] using hread
      rw [if_neg hc, ← ih _ hread']
      cases read? with
      | none => exact emoticonCodes_cons_of_ne r hc t
      | some read => simp [Marker.inHand]

theorem emoticonCodes_find (r : Registry) (t : Text) :
    emoticonCodes r t
      = match find r.isKnown t with
        | none => []
        | some (code, rest) => code :: emoticonCodes r rest :=
  emoticonCodes_findFrom none (by simp) t

/-! ## The total -/

/-- What the emoticons of codes cost together. -/
def Registry.sumOfPrices (r : Registry) (codes : List UInt32) : Nat :=
  (codes.map fun code => (r.priceOf code).toNat).sum

/-- The prices are added to the total; 64 bits of it are kept. -/
theorem toNat_priceFrom (r : Registry) (total : UInt64) (t : Text) :
    (priceFrom r total t).toNat
      = (total.toNat + r.sumOfPrices (emoticonCodes r t)) % 2 ^ 64 := by
  fun_induction priceFrom r total t with
  | case1 total t h =>
    rw [emoticonCodes_find r t, h]
    exact (Nat.mod_eq_of_lt total.toNat_lt).symm
  | case2 total t code rest h ih =>
    rw [ih, emoticonCodes_find r t, h, UInt64.toNat_add, UInt32.toNat_toUInt64,
      Nat.mod_add_mod, Nat.add_assoc]
    rfl

/-- The price is the sum of the prices of the emoticons that are read, as far as 64 bits hold it. -/
theorem price_eq_mod (r : Registry) (t : Text) :
    price r t = r.sumOfPrices (emoticonCodes r t) % 2 ^ 64 := by
  rw [price, toNat_priceFrom, UInt64.toNat_zero, Nat.zero_add]

/-- Texts with the same emoticons cost the same. -/
theorem price_congr {t t' : Text} (h : emoticonCodes r t = emoticonCodes r t') :
    price r t = price r t' := by
  rw [price_eq_mod, price_eq_mod, h]

/-- A code that is read has an emoticon, and its price counts. -/
theorem exists_emoticons_sumOfPrices (r : Registry) (t : Text) :
    ∃ emoticons : List Emoticon, (emoticonCodes r t).map r.emoticon? = emoticons.map some
      ∧ r.sumOfPrices (emoticonCodes r t) = (emoticons.map (·.price.toNat)).sum := by
  have hknown : ∀ code ∈ emoticonCodes r t, r.isKnown code = true :=
    fun code => isKnown_of_mem_emoticonCodes r
  generalize emoticonCodes r t = codes at hknown
  induction codes with
  | nil => exact ⟨[], rfl, rfl⟩
  | cons code codes ih =>
    rw [List.forall_mem_cons] at hknown
    obtain ⟨e, he⟩ := Option.isSome_iff_exists.1 hknown.1
    obtain ⟨emoticons, hcodes, hsum⟩ := ih hknown.2
    refine ⟨e :: emoticons, ?_, ?_⟩
    · rw [List.map_cons, List.map_cons, he, hcodes]
    · have hprice : r.priceOf code = e.price := by rw [Registry.priceOf, he]; rfl
      rw [Registry.sumOfPrices] at hsum ⊢
      rw [List.map_cons, List.map_cons, List.sum_cons, List.sum_cons, hsum, hprice]

/-! ## Totals that fit -/

/-- A marker takes three symbols or more. -/
theorem length_emoticonCodes_le (r : Registry) (t : Text) :
    3 * (emoticonCodes r t).length ≤ t.length := by
  rw [emoticonCodes_eq]
  refine Nat.le_trans (Piece.length_values_le fun code s hs => ?_)
    (Nat.le_of_eq (congrArg List.length (Piece.flatMap_source_scan _ t)))
  obtain ⟨⟨d, hd, -, rfl⟩, -⟩ := denotes_of_mem_scan_known hs
  have hpos : 0 < d.length := List.length_pos_iff.2 hd.1
  rw [Marker.length_enclose]
  omega

theorem sumOfPrices_le (r : Registry) (codes : List UInt32) :
    r.sumOfPrices codes ≤ codes.length * (2 ^ 32 - 1) := by
  have hprices : ∀ p ∈ codes.map fun code => (r.priceOf code).toNat, p ≤ 2 ^ 32 - 1 := by
    intro p hp
    obtain ⟨code, -, rfl⟩ := List.mem_map.1 hp
    exact Nat.le_pred_of_lt (r.priceOf code).toNat_lt
  have hsum := List.sum_le_card_nsmul _ _ hprices
  rwa [List.length_map] at hsum

/-- Less than `3 * (2 ^ 32 + 2)` symbols hold at most `2 ^ 32 + 1` markers, whose prices fit. -/
theorem sumOfPrices_lt (r : Registry) (h : t.length < 3 * (2 ^ 32 + 2)) :
    r.sumOfPrices (emoticonCodes r t) < 2 ^ 64 := by
  have hlength := length_emoticonCodes_le r t
  have hcount : (emoticonCodes r t).length ≤ 2 ^ 32 + 1 := by omega
  calc r.sumOfPrices (emoticonCodes r t)
      ≤ (emoticonCodes r t).length * (2 ^ 32 - 1) := sumOfPrices_le r _
    _ ≤ (2 ^ 32 + 1) * (2 ^ 32 - 1) := Nat.mul_le_mul_right _ hcount
    _ < 2 ^ 64 := by decide

/-- A marker of a known code that is written again and again is read each time. -/
theorem emoticonCodes_replicate (hknown : r.isKnown code = true) (n : Nat) :
    emoticonCodes r (List.replicate n (Marker.write code)).flatten = List.replicate n code := by
  induction n with
  | zero => rfl
  | succ n ih =>
    rw [emoticonCodes_eq] at ih ⊢
    rw [List.replicate_succ, List.flatten_cons, Marker.scan_known_write_append hknown,
      List.replicate_succ, ← ih]
    rfl

/-- One marker more, each at the highest price, and 64 bits do not hold the sum. -/
theorem exists_price_ne_sumOfPrices :
    ∃ (r : Registry) (t : Text), t.length = 3 * (2 ^ 32 + 2)
      ∧ price r t ≠ r.sumOfPrices (emoticonCodes r t) := by
  let r : Registry := { emoticons := [⟨1, 16, 16, 4294967295, ⟨6, 0⟩⟩] }
  have hknown : r.isKnown 1 = true := rfl
  have hcodes := emoticonCodes_replicate hknown (2 ^ 32 + 2)
  have hsum : r.sumOfPrices (List.replicate (2 ^ 32 + 2) 1) = (2 ^ 32 + 2) * (2 ^ 32 - 1) := by
    rw [Registry.sumOfPrices, List.map_replicate, List.sum_replicate_nat]
    rfl
  refine ⟨r, (List.replicate (2 ^ 32 + 2) (Marker.write 1)).flatten, ?_, ?_⟩
  · rw [List.length_flatten, List.map_replicate, List.sum_replicate_nat, Nat.mul_comm]
    rfl
  · rw [price_eq_mod, hcodes, hsum]
    decide

end ChatText
