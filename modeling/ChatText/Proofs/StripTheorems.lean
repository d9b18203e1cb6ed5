import ChatText.Proofs.PriceTheorems
import ChatText.Registry.Draft
import Mathlib.Data.List.Infix

/-!
# What stripping leaves

Stripping deletes the leftmost markers that do not overlap, in one pass. What is kept may come to
stand together: `$$1$2$` loses `$1$` and keeps `$2$`. `occursIn_strip_iff` says for which texts
that happens, and for all others stripping leaves nothing that could be read as a marker.
-/

namespace ChatText
namespace Marker

/-- Somewhere in the text stands a marker, known or not. -/
def OccursIn (t : Text) : Prop := ∃ d, IsDigits d ∧ enclose d <:+: t

/-- In the text a delimiter that is kept stands right in front of a marker that is deleted, and
from there only deleted markers and kept digits, one at least, lead to another kept delimiter. -/
def Rejoins (t : Text) : Prop :=
  ∃ before digits source inside after,
    Piece.scan any t
        = before ++ .symbol delimiter :: .item digits source
            :: (inside ++ .symbol delimiter :: after)
      ∧ IsDigits (inside.filterMap Piece.symbol?)

/-! ## Texts without markers -/

/-- A marker in a text is the start of one of its ends. -/
theorem occursIn_iff_exists_suffix {t : Text} :
    OccursIn t ↔ ∃ v, v <:+ t ∧ (digits? v).isSome = true := by
  constructor
  · rintro ⟨d, hd, before, after, rfl⟩
    refine ⟨enclose d ++ after, ⟨before, by rw [List.append_assoc]⟩, ?_⟩
    rw [digits?_eq_some_iff.2 ⟨hd, List.prefix_append _ _⟩]
    rfl
  · rintro ⟨v, hv, hsome⟩
    obtain ⟨d, hdigits⟩ := Option.isSome_iff_exists.1 hsome
    obtain ⟨hd, hstart⟩ := digits?_eq_some_iff.1 hdigits
    exact ⟨d, hd, hstart.isInfix.trans hv.isInfix⟩

instance (t : Text) : Decidable (OccursIn t) :=
  decidable_of_iff (∃ v ∈ t.tails, (digits? v).isSome = true) <| by
    simp only [occursIn_iff_exists_suffix, List.mem_tails]

theorem digits?_eq_none_of_suffix {t v : Text} (h : ¬ OccursIn t) (hv : v <:+ t) :
    digits? v = none := by
  rw [occursIn_iff_exists_suffix, not_exists] at h
  simpa [hv] using h v

/-- Nothing is read as a known code in a text without markers. -/
theorem emoticonCodes_eq_nil {t : Text} (h : ¬ OccursIn t) (r : Registry) :
    emoticonCodes r t = [] := by
  rw [emoticonCodes_eq, Piece.scan_eq_map_symbol fun v hv => by
    simp [known, digits?_eq_none_of_suffix h hv]]
  simp [List.filterMap_map, Function.comp_def, Piece.value?]

/-- A text without markers stays as it is, unless it is blank. -/
theorem strip_of_not_occursIn {t : Text} (h : ¬ OccursIn t) :
    strip t = if isBlankText t then [] else t := by
  rw [strip, Piece.scan_eq_map_symbol fun v hv => by simp [any, digits?_eq_none_of_suffix h hv]]
  simp [List.filterMap_map, Function.comp_def, Piece.symbol?]

/-! ## Markers that come together -/

/-- The markers that are found start with a delimiter. -/
theorem exists_cons_of_mem_scan_any {t s d : Text} (h : .item d s ∈ Piece.scan any t) :
    ∃ rest, s = delimiter :: rest := by
  obtain ⟨before, after, hscan⟩ := List.append_of_mem h
  obtain ⟨-, ⟨rest, hstart⟩, hlen⟩ :=
    any_eq_some_iff.1 (Piece.recognise_of_item any_fits hscan)
  have hs : enclose d = s := (List.append_inj hstart (by rw [length_enclose, hlen])).1
  exact ⟨d ++ [delimiter], hs.symm⟩

/-- The text of deleted markers and kept digits, up to a kept delimiter, is a run of digits up to
the first delimiter. -/
theorem exists_digits_prefix {inside : List (Piece Text)} (after : List (Piece Text))
    (hitem : ∀ d s, .item d s ∈ inside → ∃ rest, s = delimiter :: rest)
    (hsymbol : ∀ c ∈ inside.filterMap Piece.symbol?, c.isDigit = true) :
    ∃ e, (∀ c ∈ e, c.isDigit = true)
      ∧ e ++ [delimiter] <+: (inside ++ .symbol delimiter :: after).flatMap Piece.source
      ∧ ∀ c rest, inside = .symbol c :: rest → e ≠ [] := by
  induction inside with
  | nil => exact ⟨[], by simp, ⟨after.flatMap Piece.source, rfl⟩, by simp⟩
  | cons p inside ih =>
    cases p with
    | symbol c =>
      simp only [List.filterMap_cons, Piece.symbol?, List.forall_mem_cons] at hsymbol
      obtain ⟨e, he, hprefix, -⟩ :=
        ih (fun d s hs => hitem d s (List.mem_cons_of_mem _ hs)) hsymbol.2
      refine ⟨c :: e, List.forall_mem_cons.2 ⟨hsymbol.1, he⟩, ?_, fun _ _ _ => List.cons_ne_nil c e⟩
      exact List.cons_prefix_cons.2 ⟨rfl, hprefix⟩
    | item d s =>
      obtain ⟨rest, rfl⟩ := hitem d s List.mem_cons_self
      exact ⟨[], by simp, List.cons_prefix_cons.2 ⟨rfl, List.nil_prefix⟩, by simp⟩

/-- A kept delimiter is not followed by kept digits that lead to another kept delimiter: it would
have opened a marker. -/
theorem not_symbol_of_scan_any {t : Text} {c : Char} {before inside after : List (Piece Text)}
    (hscan : Piece.scan any t
      = before ++ .symbol delimiter :: (.symbol c :: inside ++ .symbol delimiter :: after))
    (hdigits : IsDigits ((.symbol c :: inside).filterMap Piece.symbol?)) : False := by
  have hnone := Piece.recognise_of_symbol hscan
  have hitem : ∀ d s, .item d s ∈ .symbol c :: inside → ∃ rest, s = delimiter :: rest := by
    intro d s hs
    refine exists_cons_of_mem_scan_any (t := t) (d := d) ?_
    rw [hscan]
    exact List.mem_append_right _ (List.mem_cons_of_mem _ (List.mem_append_left _ hs))
  obtain ⟨e, he, hprefix, hne⟩ := exists_digits_prefix after hitem hdigits.2
  -- so the delimiter, the digits up to the next one and that one would have been deleted
  have hsome : any (delimiter
      :: (.symbol c :: inside ++ .symbol delimiter :: after).flatMap Piece.source)
      = some (e, e.length + 2) :=
    any_eq_some_iff.2 ⟨⟨hne c inside rfl, he⟩, List.cons_prefix_cons.2 ⟨rfl, hprefix⟩, rfl⟩
  rw [hnone] at hsome
  cases hsome

/-- What is kept of a text that is not blank. -/
theorem strip_of_not_blank {t : Text} (h : isBlankText t = false) :
    strip t = (Piece.scan any t).filterMap Piece.symbol? := by
  rw [strip, h]
  rfl

theorem rejoins_of_occursIn_strip {t : Text} (h : OccursIn (strip t)) : Rejoins t := by
  obtain ⟨d, hd, x, y, hxy⟩ := h
  have hblank : isBlankText t = false := by
    by_contra hblank
    rw [strip, if_pos (by simpa using hblank)] at hxy
    simp [enclose] at hxy
  have hkept : (Piece.scan any t).filterMap Piece.symbol?
      = x ++ delimiter :: (d ++ delimiter :: y) := by
    rw [← strip_of_not_blank hblank, ← hxy]
    simp [enclose]
  -- the two delimiters and the pieces around and between them
  obtain ⟨l₁, l₂, hscan, -, hl₂⟩ := List.filterMap_eq_append_iff.1 hkept
  obtain ⟨i₁, p, l₃, rfl, hi₁, hp, hl₃⟩ := List.filterMap_eq_cons_iff.1 hl₂
  obtain ⟨l₄, l₅, rfl, hl₄, hl₅⟩ := List.filterMap_eq_append_iff.1 hl₃
  obtain ⟨i₂, q, after, rfl, hi₂, hq, -⟩ := List.filterMap_eq_cons_iff.1 hl₅
  have hsymbol : ∀ {p : Piece Text}, p.symbol? = some delimiter → p = .symbol delimiter := by
    intro p hp
    cases p with
    | symbol c => rw [Piece.symbol?, Option.some.injEq] at hp; rw [hp]
    | item d s => cases hp
  obtain rfl := hsymbol hp
  obtain rfl := hsymbol hq
  have hinside : (l₄ ++ i₂).filterMap Piece.symbol? = d := by
    rw [List.filterMap_append, hl₄, List.filterMap_eq_nil_iff.2 hi₂, List.append_nil]
  have hscan' : Piece.scan any t = (l₁ ++ i₁) ++ .symbol delimiter
      :: ((l₄ ++ i₂) ++ .symbol delimiter :: after) := by
    rw [hscan]
    simp
  generalize l₄ ++ i₂ = inside at hinside hscan'
  -- what stands first between them cannot be kept, so it is a deleted marker
  cases inside with
  | nil => exact absurd hinside.symm hd.1
  | cons p inside =>
    cases p with
    | symbol c => exact (not_symbol_of_scan_any hscan' (hinside ▸ hd)).elim
    | item digits source => exact ⟨l₁ ++ i₁, digits, source, inside, after, hscan', hinside ▸ hd⟩

/-- Stripping leaves a marker behind exactly if kept symbols come together to one. -/
theorem occursIn_strip_iff (t : Text) : OccursIn (strip t) ↔ Rejoins t := by
  refine ⟨rejoins_of_occursIn_strip, ?_⟩
  rintro ⟨before, digits, source, inside, after, hscan, hd⟩
  have hmem : delimiter ∈ t := by
    rw [← Piece.flatMap_source_scan any t, hscan]
    simp [Piece.source]
  have hblank : isBlankText t = false := by
    rw [isBlankText, List.all_eq_false]
    exact ⟨delimiter, hmem, by decide⟩
  refine ⟨inside.filterMap Piece.symbol?, hd, before.filterMap Piece.symbol?,
    after.filterMap Piece.symbol?, ?_⟩
  rw [strip_of_not_blank hblank, hscan]
  simp [enclose, Piece.symbol?, List.filterMap_append, List.filterMap_cons]

instance (t : Text) : Decidable (Rejoins t) := decidable_of_iff _ (occursIn_strip_iff t)

/-! ## Stripped texts -/

/-- What is left of a text holds no marker, unless kept symbols come together to one. So there is
nothing more to strip, but for blanks that are all that is left, and nothing to read as an emoticon
and to charge for, whatever the registry. -/
theorem strip_leaves_no_marker {t : Text} (h : ¬ Rejoins t) :
    ¬ OccursIn (strip t)
      ∧ strip (strip t) = (if isBlankText (strip t) then [] else strip t)
      ∧ ∀ r : Registry, price r (strip t) = 0
          ∧ ∀ code, Token.emoticon code ∉ decode r (strip t) := by
  have hno : ¬ OccursIn (strip t) := by rwa [occursIn_strip_iff]
  refine ⟨hno, strip_of_not_occursIn hno, fun r => ?_⟩
  have hcodes := emoticonCodes_eq_nil hno r
  constructor
  · rw [price_eq_mod, hcodes]
    rfl
  · intro code hcode
    have hmem : code ∈ emoticonCodes r (strip t) :=
      List.mem_filterMap.2 ⟨.emoticon code, hcode, rfl⟩
    rw [hcodes] at hmem
    cases hmem

/-- Delimiters and digits that are kept between the markers need not rejoin. -/
theorem strip_leaves_no_marker_between_stray_delimiters :
    ¬ Rejoins "5$$1$$$2$ $7 $3$$".toList
      ∧ strip "5$$1$$$2$ $7 $3$$".toList = "5$$ $7 $".toList
      ∧ strip (strip "5$$1$$$2$ $7 $3$$".toList) = strip "5$$1$$$2$ $7 $3$$".toList
      ∧ ∀ r, price r (strip "5$$1$$$2$ $7 $3$$".toList) = 0 := by
  have h : ¬ Rejoins "5$$1$$$2$ $7 $3$$".toList := by decide
  obtain ⟨-, hstrip, hread⟩ := strip_leaves_no_marker h
  exact ⟨h, by decide, hstrip.trans (if_neg (by decide)), fun r => (hread r).1⟩

/-- A marker may be left behind, and charged for, and stripping once more takes it away; so it does
with blanks that stood around a marker. -/
theorem strip_leaves_rejoined_marker :
    OccursIn (strip "$$1$2$".toList)
      ∧ strip (strip "$$1$2$".toList) ≠ strip "$$1$2$".toList
      ∧ price (Registry.ofSteps [.icon 2 16 16 5]) (strip "$$1$2$".toList) = 5
      ∧ Token.emoticon 2
          ∈ decode (Registry.ofSteps [.icon 2 16 16 5]) (strip "$$1$2$".toList)
      ∧ strip (strip " $1$".toList) ≠ strip " $1$".toList := by
  rw [price_eq_mod]
  decide

end Marker
end ChatText
