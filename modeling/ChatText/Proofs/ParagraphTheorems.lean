import ChatText.Layout.Paragraph
import ChatText.Proofs.WrapTheorems

/-!
# Laid out text

`fitWidth` lays a text out line by line, and the words of each line are those between its blanks.

* What stands on a line of the layout is one of these words or a piece of one (`of_mem_wrap`), and a
  line that is not blank takes at least one line (`wrap_ne_nil`).
* So a text that ends with no blank is laid out as one that ends with none
  (`fitWidth_ends_with_no_blank`).
* Of newlines at the end of a text, the layout drops one (`fitWidth_append_newline`).
-/

namespace ChatText
namespace Layout

variable {limit maxWidth : Nat} {metric : Metric} {words : List Text}

/-- Abbreviating links makes them no longer. -/
theorem ParagraphOptions.visible_metric_le (o : ParagraphOptions) (n : Nat) :
    o.metric.visible n ≤ n := by
  unfold ParagraphOptions.metric
  split
  · exact Nat.min_le_left n Link.maxVisible
  · exact Nat.le_refl n

/-! ## What stands on a line -/

theorem PartsOf.ne_nil {word : Text} {ps : List Part} (h : PartsOf limit metric word ps) :
    ps ≠ [] := by
  cases h with
  | whole | cut => exact List.cons_ne_nil _ _

/-- The parts of a word stand in it, and none of them is empty. -/
theorem PartsOf.of_mem {word : Text} {ps : List Part} (h : PartsOf limit metric word ps)
    (hword : word ≠ []) {p : Part} (hp : p ∈ ps) : p.text ≠ [] ∧ p.text <:+: word := by
  cases h with
  | whole =>
    rw [List.mem_singleton.1 hp]
    exact ⟨hword, List.infix_refl word⟩
  | @cut first last middle _ _ hmake hfirst hmiddle hlast =>
    rw [← hmake]
    simp only [List.mem_cons, List.mem_append, List.mem_map, List.not_mem_nil, or_false] at hp
    rcases hp with rfl | ⟨piece, hpiece, rfl⟩ | rfl
    · rw [List.append_assoc]
      exact ⟨hfirst, (List.prefix_append first _).isInfix⟩
    · have hin : piece <:+: middle.flatten := List.infix_of_mem_flatten hpiece
      exact ⟨hmiddle piece hpiece, hin.trans (List.infix_append first _ last)⟩
    · exact ⟨hlast, (List.suffix_append _ last).isInfix⟩

/-- What stands on a wrapped line is a word or a piece of one, and not empty. -/
theorem of_mem_wrap (hvisible : ∀ n, metric.visible n ≤ n) {line : Line}
    (hline : line ∈ wrap maxWidth metric words) {piece : Text} (hpiece : piece ∈ line.words) :
    piece ≠ [] ∧ ∃ word ∈ words, piece <:+: word := by
  obtain ⟨parts, onLines, hparts, hflatten, hlines⟩ := packs_wrap hvisible maxWidth words
  obtain ⟨held, hheld, hholds⟩ := exists_of_mem_left hlines hline
  rw [hholds.words] at hpiece
  obtain ⟨p, hp, rfl⟩ := List.mem_map.1 hpiece
  have hpart : p ∈ parts.flatten := by
    have hmem : p ∈ onLines.flatten := List.mem_flatten.2 ⟨held, hheld, hp⟩
    rwa [hflatten, List.nil_append] at hmem
  obtain ⟨ps, hps, hp⟩ := List.mem_flatten.1 hpart
  obtain ⟨word, hword, hof⟩ := exists_of_mem_left hparts.flip hps
  have hword : word ∈ words ∧ word ≠ [] := by simpa using hword
  have hmem := hof.of_mem hword.2 hp
  exact ⟨hmem.1, word, hword.1, hmem.2⟩

/-- Words that are not all empty take a line. -/
theorem wrap_ne_nil (hvisible : ∀ n, metric.visible n ≤ n) {word : Text} (hword : word ∈ words)
    (hne : word ≠ []) : wrap maxWidth metric words ≠ [] := by
  obtain ⟨parts, onLines, hparts, hflatten, hlines⟩ := packs_wrap hvisible maxWidth words
  have hmem : word ∈ words.filter (· ≠ []) := List.mem_filter.2 ⟨hword, by simpa using hne⟩
  obtain ⟨ps, hps, hof⟩ := exists_of_mem_left hparts hmem
  obtain ⟨p, hp⟩ := List.exists_mem_of_ne_nil ps hof.ne_nil
  have hpart : p ∈ onLines.flatten := by
    rw [hflatten, List.nil_append]
    exact List.mem_flatten.2 ⟨ps, hps, hp⟩
  obtain ⟨held, hheld, -⟩ := List.mem_flatten.1 hpart
  obtain ⟨line, hline, -⟩ := exists_of_mem_left hlines.flip hheld
  exact List.ne_nil_of_mem hline

/-- A line of words without blanks shows something, and ends with no blank. -/
theorem text_ends_with_no_blank (hvisible : ∀ n, metric.visible n ≤ n)
    (hwords : ∀ word ∈ words, ∀ c ∈ word, isBlank c = false) {line : Line}
    (hline : line ∈ wrap maxWidth metric words) :
    line.text ≠ [] ∧ ∀ c ∈ line.text.getLast?, isBlank c = false := by
  obtain ⟨ps, hholds⟩ := exists_holds_of_mem_wrap hvisible hline
  have hne : line.words ≠ [] := hholds.words_ne_nil
  obtain ⟨front, piece, hlast⟩ := List.eq_nil_or_concat' line.words |>.resolve_left hne
  have hpiece : piece ∈ line.words := by
    rw [hlast]
    exact List.mem_concat_self
  obtain ⟨hfull, word, hword, hin⟩ := of_mem_wrap hvisible hline hpiece
  have htext : line.text.getLast? = piece.getLast? := by
    rw [Line.text, hlast]
    exact getLast?_intercalate_concat ' ' front hfull
  constructor
  · intro hnil
    rw [hnil] at htext
    exact hfull (List.getLast?_eq_none_iff.1 htext.symm)
  · intro c hc
    rw [htext] at hc
    exact hwords word hword c (hin.subset (List.mem_of_getLast? hc))

/-! ## What a layout ends with -/

/-- Every symbol that is not blank stands in one of the words of its line. -/
theorem exists_mem_splitAtBlanks {line : Text} {c : Char} (hc : c ∈ line)
    (hblank : isBlank c = false) : ∃ word ∈ splitAtBlanks line, c ∈ word := by
  obtain ⟨first, gaps, hsplit, htext, -, hgaps⟩ := exists_gaps isBlank line
  rw [splitAtBlanks, hsplit]
  rw [htext] at hc
  rcases List.mem_append.1 hc with hc | hc
  · exact ⟨first, List.mem_cons_self, hc⟩
  · obtain ⟨g, hg, hc⟩ := List.mem_flatMap.1 hc
    rcases List.mem_cons.1 hc with rfl | hc
    · rw [(hgaps g hg).1] at hblank
      cases hblank
    · exact ⟨g.2, List.mem_cons_of_mem _ (List.mem_map_of_mem hg), hc⟩

@[simp] theorem fitLine_nil : fitLine maxWidth metric [] = [] := by
  simp [fitLine, splitAtBlanks, wrap, wrapFrom, Line.finish, unlines, List.splitOnP_nil]

/-- A line that is not blank is laid out as lines that do not end with a blank. -/
theorem fitLine_ends_with_no_blank (hvisible : ∀ n, metric.visible n ≤ n) (maxWidth : Nat)
    {line : Text} {c : Char} (hc : c ∈ line) (hblank : isBlank c = false) :
    fitLine maxWidth metric line ≠ []
      ∧ ∀ c ∈ (fitLine maxWidth metric line).getLast?, isBlank c = false := by
  obtain ⟨word, hword, hc⟩ := exists_mem_splitAtBlanks hc hblank
  have hne : wrap maxWidth metric (splitAtBlanks line) ≠ [] :=
    wrap_ne_nil hvisible hword (List.ne_nil_of_mem hc)
  obtain ⟨front, last, hwrap⟩ := (List.eq_nil_or_concat' _).resolve_left hne
  have hlast : last ∈ wrap maxWidth metric (splitAtBlanks line) := by
    rw [hwrap]
    exact List.mem_concat_self
  have hends := text_ends_with_no_blank hvisible (fun _ hword _ hc => (of_mem_splitOnP hword hc).2)
    hlast
  have hfit : (fitLine maxWidth metric line).getLast? = last.text.getLast? := by
    rw [fitLine, hwrap, List.map_append, List.map_singleton]
    exact getLast?_intercalate_concat '\n' _ hends.1
  constructor
  · intro hnil
    rw [hnil] at hfit
    exact hends.1 (List.getLast?_eq_none_iff.1 hfit.symm)
  · rw [hfit]
    exact hends.2

/-- Only blanks become spaces where newlines do. -/
theorem spaceNewlines_ends_with_no_blank {t : Text}
    (ht : ∀ c ∈ t.getLast?, isBlank c = false) :
    ∀ c ∈ (spaceNewlines t).getLast?, isBlank c = false := by
  intro c hc
  rw [spaceNewlines, List.getLast?_map] at hc
  obtain ⟨d, hd, rfl⟩ := Option.map_eq_some_iff.1 hc
  have hd : isBlank d = false := ht d hd
  have hne : d ≠ '\n' := by
    rintro rfl
    exact absurd hd (by decide)
  rwa [if_neg hne]

/-- A text that ends with no blank is laid out as one that does not. -/
theorem fitWidth_ends_with_no_blank {t : Text} (ht : ∀ c ∈ t.getLast?, isBlank c = false)
    (maxWidth : Nat) (o : ParagraphOptions) :
    ∀ c ∈ (fitWidth maxWidth o t).getLast?, isBlank c = false := by
  unfold fitWidth
  generalize hs : (if o.discardNewlines then spaceNewlines t else t) = s
  have hend : ∀ c ∈ s.getLast?, isBlank c = false := by
    rw [← hs]
    split
    · exact spaceNewlines_ends_with_no_blank ht
    · exact ht
  obtain ⟨front, last, hlines⟩ := (List.eq_nil_or_concat' (lines s)).resolve_left (lines_ne_nil s)
  have hjoin : s = unlines (front ++ [last]) := by rw [← hlines, unlines_lines]
  simp only [hlines, List.map_append, List.map_singleton]
  by_cases hlast : last = []
  · -- the newline in front of an empty last line would be the last symbol
    have hfront : front = [] := by
      by_contra hfront
      have hs : s = unlines front ++ ['\n'] := by
        rw [hjoin, hlast, unlines, intercalate_concat '\n' hfront]
        rfl
      have hnewline := hend '\n' (by rw [hs, List.getLast?_concat]; rfl)
      exact absurd hnewline (by decide)
    simp [hfront, hlast, unlines, dropFinalNewline]
  · have hsame : s.getLast? = last.getLast? := by
      rw [hjoin]
      exact getLast?_intercalate_concat '\n' front hlast
    have hc := List.getLast?_eq_some_getLast hlast
    have hfit := fitLine_ends_with_no_blank o.visible_metric_le maxWidth
      (List.getLast_mem hlast) (hend _ (hsame.trans hc))
    have hnext := getLast?_intercalate_concat '\n' (front.map (fitLine maxWidth o.metric)) hfit.1
    rw [← unlines] at hnext
    have hnewline : (fitLine maxWidth o.metric last).getLast? ≠ some '\n' := fun h =>
      absurd (hfit.2 '\n' h) (by decide)
    rw [dropFinalNewline_eq_self (by rwa [hnext]), hnext]
    exact hfit.2

/-- Where newlines are kept, one more at the end is the one that is dropped from the layout. -/
theorem fitWidth_append_newline (maxWidth : Nat) {o : ParagraphOptions}
    (hnewlines : o.discardNewlines = false) (t : Text) :
    fitWidth maxWidth o t = dropFinalNewline (fitWidth maxWidth o (t ++ ['\n'])) := by
  have hne : (lines t).map (fitLine maxWidth o.metric) ≠ [] := by simpa using lines_ne_nil t
  unfold fitWidth
  simp only [hnewlines, Bool.false_eq_true, if_false]
  rw [lines_append_newline, List.map_append, List.map_singleton, fitLine_nil, unlines, unlines,
    intercalate_concat '\n' hne, dropFinalNewline_append_newline]

end Layout
end ChatText
