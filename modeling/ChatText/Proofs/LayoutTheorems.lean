import ChatText.Proofs.PackingTheorems
import ChatText.Proofs.ParagraphTheorems
import ChatText.Proofs.PriceTheorems
import ChatText.Proofs.WordTheorems

/-!
# The lines of a layout

A layout is joined from wrapped lines and split again when it is shown.

* Each of its lines is a row: words joined by single spaces that fit on a line (`IsRow`,
  `isRow_of_mem_lines_fitWidth`). All that is seen on a line follows from this, the abbreviated
  links included.
* A line of the text that is not blank becomes rows that are not empty, and a blank one stays an
  empty row, unless it stands at the end of the text (`lines_fitWidth`).
* What is not blank is kept line by line (`withoutBlanks_fitLine`).
* A row is laid out as itself (`IsRow.fitLine_eq`), so a layout can be laid out again and stays what
  it is.
-/

namespace ChatText
namespace Layout

variable {limit maxWidth : Nat} {metric : Metric}

/-! ## Rows -/

/-- The text is made of words that are joined by single spaces and fit on a line. -/
structure IsRow (limit : Nat) (metric : Metric) (row : Text) : Prop where
  unwords_eq : unwords (nonemptyWords row) = row
  fits : wordsWidth metric (nonemptyWords row) ≤ limit

theorem isRow_nil : IsRow limit metric [] where
  unwords_eq := by
    rw [nonemptyWords_nil]
    rfl
  fits := by
    rw [nonemptyWords_nil]
    exact Nat.zero_le limit

theorem isRow_unwords {ws : List Text} (hws : ∀ w ∈ ws, IsWord w)
    (hfits : wordsWidth metric ws ≤ limit) : IsRow limit metric (unwords ws) where
  unwords_eq := by rw [nonemptyWords_unwords hws]
  fits := by
    rw [nonemptyWords_unwords hws]
    exact hfits

namespace IsRow

variable {row : Text}

theorem nonemptyWords_ne_nil (h : IsRow limit metric row) (hne : row ≠ []) :
    nonemptyWords row ≠ [] := by
  intro hnil
  have hjoin := h.unwords_eq
  rw [hnil] at hjoin
  exact hne hjoin.symm

/-- A row starts with no blank. -/
theorem isBlank_of_mem_head? (h : IsRow limit metric row) {c : Char} (hc : c ∈ row.head?) :
    isBlank c = false := by
  rw [← h.unwords_eq] at hc
  exact isBlank_of_mem_head?_unwords (fun _ => of_mem_nonemptyWords) hc

/-- A row ends with no blank. -/
theorem isBlank_of_mem_getLast? (h : IsRow limit metric row) {c : Char} (hc : c ∈ row.getLast?) :
    isBlank c = false := by
  rw [← h.unwords_eq] at hc
  exact isBlank_of_mem_getLast?_unwords (fun _ => of_mem_nonemptyWords) hc

/-- Between single spaces a row has its words. -/
theorem words_eq (h : IsRow limit metric row) (hne : row ≠ []) :
    words row = nonemptyWords row := by
  have hwords := words_unwords (fun _ => of_mem_nonemptyWords) (h.nonemptyWords_ne_nil hne)
  rwa [h.unwords_eq] at hwords

/-- No two spaces of a row are neighbours: between them there would be an empty word. -/
theorem not_two_spaces (h : IsRow limit metric row) : ¬ [' ', ' '] <:+: row := by
  rintro ⟨before, after, hrow⟩
  have hne : row ≠ [] := by
    rw [← hrow]
    simp
  have hempty : [] ∈ words row := by
    rw [← hrow, List.append_assoc]
    unfold words
    rw [List.splitOn_eq_splitOnP]
    show [] ∈ (before ++ ' ' :: ' ' :: after).splitOnP (· == ' ')
    rw [List.splitOnP_append_cons _ _ (by decide), List.splitOnP_cons_eq_if_modifyHead]
    simp
  rw [h.words_eq hne] at hempty
  exact (of_mem_nonemptyWords hempty).1 rfl

/-- A row holds no newline. -/
theorem lines_eq (h : IsRow limit metric row) : lines row = [row] := by
  rw [← h.unwords_eq]
  exact lines_unwords fun _ => of_mem_nonemptyWords

end IsRow

/-! ## What is shown of a row -/

/-- Between joined parts there is one separator less than there are parts. -/
theorem length_intercalate {α : Type} (x : α) (parts : List (List α)) :
    ([x].intercalate parts).length = (parts.map List.length).sum + (parts.length - 1) := by
  induction parts with
  | nil => rfl
  | cons part parts ih =>
    by_cases hparts : parts = []
    · rw [hparts, List.intercalate_singleton]
      simp
    · have hpos : 0 < parts.length := List.length_pos_iff.2 hparts
      rw [List.intercalate_cons_of_ne_nil hparts, List.length_append, List.length_append, ih,
        List.map_cons, List.sum_cons, List.length_singleton, List.length_cons]
      omega

/-- A word as it is shown: where links are abbreviated, a link by its visible text. -/
def ParagraphOptions.shown (o : ParagraphOptions) (word : Text) : Text :=
  if o.abbreviateLinks ∧ Link.isWeb word then Link.visibleText word else word

/-- A word is laid out with the width that it is shown with. -/
theorem ParagraphOptions.length_shown (o : ParagraphOptions) (word : Text) :
    (o.shown word).length = o.metric.width word := by
  unfold ParagraphOptions.shown ParagraphOptions.metric Metric.width
  by_cases habbreviate : o.abbreviateLinks = true
  · rw [if_pos habbreviate]
    by_cases hlink : Link.isWeb word = true
    · rw [if_pos ⟨habbreviate, hlink⟩, Link.length_visibleText]
      exact (if_pos hlink).symm
    · rw [if_neg fun h => hlink h.2]
      exact (if_neg hlink).symm
  · rw [if_neg fun h => habbreviate h.1, if_neg habbreviate]
    rfl

/-- A row with its words as they are shown is no wider than a line. -/
theorem IsRow.length_shown_le {o : ParagraphOptions} {row : Text} (h : IsRow limit o.metric row) :
    (unwords ((words row).map o.shown)).length ≤ limit := by
  have hlength : ∀ ws : List Text,
      (unwords (ws.map o.shown)).length = wordsWidth o.metric ws := by
    intro ws
    have hwidths : (ws.map o.shown).map List.length = ws.map o.metric.width := by
      rw [List.map_map]
      exact List.map_congr_left fun w _ => o.length_shown w
    unfold unwords wordsWidth
    rw [length_intercalate, hwidths, List.length_map]
  rw [hlength]
  by_cases hne : row = []
  · rw [hne]
    show wordsWidth o.metric [[]] ≤ limit
    rw [wordsWidth_singleton, o.metric.width_nil o.visible_metric_le]
    exact Nat.zero_le limit
  · rw [h.words_eq hne]
    exact h.fits

/-! ## A line of text as rows -/

/-- What is on wrapped lines are the words of the text and pieces of them. -/
theorem exists_infix_of_mem_wrap (hvisible : ∀ n, metric.visible n ≤ n) {text : Text} {line : Line}
    (hline : line ∈ wrap maxWidth metric (splitAtBlanks text)) {w : Text} (hw : w ∈ line.words) :
    w ≠ [] ∧ ∃ word ∈ nonemptyWords text, w <:+: word := by
  obtain ⟨hne, word, hword, hin⟩ := of_mem_wrap hvisible hline hw
  refine ⟨hne, word, mem_nonemptyWords_iff.2 ⟨hword, ?_⟩, hin⟩
  rintro rfl
  exact hne (List.infix_nil.1 hin)

/-- The words on wrapped lines are words. -/
theorem isWord_of_mem_wrap (hvisible : ∀ n, metric.visible n ≤ n) {text : Text} {line : Line}
    (hline : line ∈ wrap maxWidth metric (splitAtBlanks text)) :
    ∀ w ∈ line.words, IsWord w := by
  intro w hw
  obtain ⟨hne, word, hword, hin⟩ := exists_infix_of_mem_wrap hvisible hline hw
  exact IsWord.of_infix (of_mem_nonemptyWords hword) hne hin

/-- A wrapped line is a row. -/
theorem isRow_of_mem_wrap (hvisible : ∀ n, metric.visible n ≤ n) {text : Text} {line : Line}
    (hline : line ∈ wrap maxWidth metric (splitAtBlanks text)) :
    IsRow (max 1 maxWidth) metric line.text := by
  obtain ⟨ps, hholds⟩ := exists_holds_of_mem_wrap hvisible hline
  exact isRow_unwords (isWord_of_mem_wrap hvisible hline) (hholds.wordsWidth_words_le hvisible)

/-- A blank line takes no wrapped line. -/
theorem wrap_eq_nil_of_isBlankText (hvisible : ∀ n, metric.visible n ≤ n) {text : Text}
    (hblank : isBlankText text = true) : wrap maxWidth metric (splitAtBlanks text) = [] := by
  rw [List.eq_nil_iff_forall_not_mem]
  intro line hline
  obtain ⟨ps, hholds⟩ := exists_holds_of_mem_wrap hvisible hline
  obtain ⟨w, hw⟩ := List.exists_mem_of_ne_nil _ hholds.words_ne_nil
  obtain ⟨-, word, hword, -⟩ := exists_infix_of_mem_wrap hvisible hline hw
  rw [nonemptyWords_eq_nil_iff.2 hblank] at hword
  cases hword

theorem fitLine_of_isBlankText (hvisible : ∀ n, metric.visible n ≤ n) {line : Text}
    (hblank : isBlankText line = true) : fitLine maxWidth metric line = [] := by
  unfold fitLine
  rw [wrap_eq_nil_of_isBlankText hvisible hblank]
  rfl

/-- A line that is not blank is split into its wrapped lines again. -/
theorem lines_fitLine (hvisible : ∀ n, metric.visible n ≤ n) {line : Text}
    (hblank : isBlankText line = false) :
    (wrap maxWidth metric (splitAtBlanks line)).map Line.text ≠ []
      ∧ lines (fitLine maxWidth metric line)
        = (wrap maxWidth metric (splitAtBlanks line)).map Line.text := by
  have hne : (wrap maxWidth metric (splitAtBlanks line)).map Line.text ≠ [] := by
    have hwords : nonemptyWords line ≠ [] := by
      intro hnil
      rw [nonemptyWords_eq_nil_iff.1 hnil] at hblank
      cases hblank
    obtain ⟨w, hw⟩ := List.exists_mem_of_ne_nil _ hwords
    obtain ⟨hsplit, hsolid⟩ := mem_nonemptyWords_iff.1 hw
    have hwrap : wrap maxWidth metric (splitAtBlanks line) ≠ [] :=
      wrap_ne_nil hvisible hsplit hsolid
    simpa using hwrap
  refine ⟨hne, ?_⟩
  have hrows : ((wrap maxWidth metric (splitAtBlanks line)).map Line.text).flatMap lines
      = ((wrap maxWidth metric (splitAtBlanks line)).map Line.text).flatMap fun row => [row] := by
    apply List.flatMap_congr
    rw [List.forall_mem_map]
    intro l hl
    exact (isRow_of_mem_wrap hvisible hl).lines_eq
  unfold fitLine
  rw [lines_unlines hne, hrows, List.flatMap_singleton']

theorem isRow_of_mem_lines_fitLine (hvisible : ∀ n, metric.visible n ≤ n) {line row : Text}
    (hrow : row ∈ lines (fitLine maxWidth metric line)) :
    IsRow (max 1 maxWidth) metric row := by
  cases hblank : isBlankText line with
  | true =>
    rw [fitLine_of_isBlankText hvisible hblank] at hrow
    rw [List.mem_singleton.1 (show row ∈ [[]] from hrow)]
    exact isRow_nil
  | false =>
    rw [(lines_fitLine hvisible hblank).2, List.mem_map] at hrow
    obtain ⟨l, hl, rfl⟩ := hrow
    exact isRow_of_mem_wrap hvisible hl

/-- A row is laid out as itself. -/
theorem IsRow.fitLine_eq {row : Text} (h : IsRow (max 1 maxWidth) metric row) :
    fitLine maxWidth metric row = row := by
  by_cases hne : row = []
  · rw [hne, fitLine_nil]
  · have hwords := h.nonemptyWords_ne_nil hne
    have hsplit : splitAtBlanks row = nonemptyWords row := by
      have hjoined := splitAtBlanks_unwords (fun _ => of_mem_nonemptyWords) hwords
      rwa [h.unwords_eq] at hjoined
    -- the words fit on a line, so they are packed onto one again
    have hwrap := map_words_wrap (fun w hw => (of_mem_nonemptyWords hw).1) hwords h.fits
    have htext : (wrap maxWidth metric (nonemptyWords row)).map Line.text = [row] := by
      have hjoin := congrArg (List.map unwords) hwrap
      rw [List.map_map, List.map_singleton, h.unwords_eq] at hjoin
      exact hjoin
    unfold fitLine
    rw [hsplit, htext]
    exact List.intercalate_singleton

/-! ## What is kept of a line -/

/-- The words of a line that is laid out are those on its wrapped lines. -/
theorem nonemptyWords_fitLine (hvisible : ∀ n, metric.visible n ≤ n) (line : Text) :
    nonemptyWords (fitLine maxWidth metric line)
      = ((wrap maxWidth metric (splitAtBlanks line)).map Line.words).flatten := by
  unfold fitLine
  rw [nonemptyWords_unlines, List.flatMap_map, ← List.flatMap_def]
  apply List.flatMap_congr
  intro l hl
  exact nonemptyWords_unwords (isWord_of_mem_wrap hvisible hl)

/-- Laying a line out loses nothing but blanks. -/
theorem withoutBlanks_fitLine (hvisible : ∀ n, metric.visible n ≤ n) (line : Text) :
    withoutBlanks (fitLine maxWidth metric line) = withoutBlanks line := by
  rw [← flatten_nonemptyWords, nonemptyWords_fitLine hvisible, flatten_words_wrap hvisible,
    ← flatten_nonemptyWords, nonemptyWords, wordsWith, List.flatten_filter_ne_nil]

/-! ## A text as rows -/

/-- The text that is laid out line by line. -/
def ParagraphOptions.source (o : ParagraphOptions) (t : Text) : Text :=
  if o.discardNewlines then spaceNewlines t else t

theorem fitWidth_eq (maxWidth : Nat) (o : ParagraphOptions) (t : Text) :
    fitWidth maxWidth o t
      = dropFinalNewline (unlines ((lines (o.source t)).map (fitLine maxWidth o.metric))) := rfl

theorem ParagraphOptions.nonemptyWords_source (o : ParagraphOptions) (t : Text) :
    nonemptyWords (o.source t) = nonemptyWords t := by
  unfold ParagraphOptions.source
  split
  · exact nonemptyWords_spaceNewlines t
  · rfl

/-- The words of a layout are those of the lines, laid out one by one. -/
theorem nonemptyWords_fitWidth (maxWidth : Nat) (o : ParagraphOptions) (t : Text) :
    nonemptyWords (fitWidth maxWidth o t)
      = (lines (o.source t)).flatMap fun line =>
        nonemptyWords (fitLine maxWidth o.metric line) := by
  rw [fitWidth_eq, nonemptyWords_dropFinalNewline, nonemptyWords_unlines, List.flatMap_map]

/-- Laying a text out loses nothing but blanks. -/
theorem withoutBlanks_fitWidth (maxWidth : Nat) (o : ParagraphOptions) (t : Text) :
    withoutBlanks (fitWidth maxWidth o t) = withoutBlanks t := by
  -- both sides are words put together, those of the lines one line after the other
  rw [← flatten_nonemptyWords, nonemptyWords_fitWidth, ← flatten_nonemptyWords,
    ← o.nonemptyWords_source, ← flatMap_nonemptyWords_lines, List.flatMap_def, List.flatMap_def,
    List.flatten_flatten, List.flatten_flatten, List.map_map, List.map_map]
  refine congrArg List.flatten (List.map_congr_left fun line _ => ?_)
  show (nonemptyWords (fitLine maxWidth o.metric line)).flatten = (nonemptyWords line).flatten
  rw [flatten_nonemptyWords, flatten_nonemptyWords, withoutBlanks_fitLine o.visible_metric_le]

/-- The lines that a layout keeps: a blank last line is dropped, unless it is the only one. -/
def keptLines (ls : List Text) : List Text :=
  if ls.length ≠ 1 ∧ ls.getLast?.any isBlankText then ls.dropLast else ls

/-- The lines of a layout are the rows of the lines that it keeps. -/
theorem lines_fitWidth (maxWidth : Nat) (o : ParagraphOptions) (t : Text) :
    lines (fitWidth maxWidth o t)
      = (keptLines (lines (o.source t))).flatMap fun line =>
          lines (fitLine maxWidth o.metric line) := by
  obtain ⟨front, last, hlines⟩ :=
    (List.eq_nil_or_concat' (lines (o.source t))).resolve_left (lines_ne_nil _)
  rw [fitWidth_eq, hlines]
  by_cases hdropped : front ≠ [] ∧ isBlankText last = true
  · -- the blank last line leaves the newline in front of it, and that is dropped
    have hkept : keptLines (front ++ [last]) = front := by
      unfold keptLines
      rw [if_pos (by simpa using hdropped), List.dropLast_concat]
    have hfront : front.map (fitLine maxWidth o.metric) ≠ [] := by simpa using hdropped.1
    rw [hkept, List.map_append, List.map_singleton,
      fitLine_of_isBlankText o.visible_metric_le hdropped.2, unlines,
      intercalate_concat '\n' hfront,
      dropFinalNewline_append_newline, ← unlines, lines_unlines hfront, List.flatMap_map]
  · have hkept : keptLines (front ++ [last]) = front ++ [last] := by
      unfold keptLines
      rw [if_neg (by simpa using hdropped)]
    have hne : (front ++ [last]).map (fitLine maxWidth o.metric) ≠ [] := by simp
    -- the rows of the last line end with no blank, and without other lines there is no newline
    have hends : (unlines ((front ++ [last]).map (fitLine maxWidth o.metric))).getLast?
        ≠ some '\n' := by
      intro hnewline
      rw [List.map_append, List.map_singleton] at hnewline
      cases hblank : isBlankText last with
      | true =>
        have hfront : front = [] := by
          by_contra hfront
          exact hdropped ⟨hfront, hblank⟩
        rw [hfront, fitLine_of_isBlankText o.visible_metric_le hblank] at hnewline
        cases hnewline
      | false =>
        obtain ⟨c, hc, hsolid⟩ : ∃ c ∈ last, isBlank c = false := by
          simpa [isBlankText] using hblank
        have hfit := fitLine_ends_with_no_blank o.visible_metric_le maxWidth hc hsolid
        rw [unlines, getLast?_intercalate_concat '\n' _ hfit.1] at hnewline
        exact absurd (hfit.2 '\n' hnewline) (by decide)
    rw [hkept, dropFinalNewline_eq_self hends, lines_unlines hne, List.flatMap_map]

theorem isRow_of_mem_lines_fitWidth (maxWidth : Nat) (o : ParagraphOptions) {t row : Text}
    (hrow : row ∈ lines (fitWidth maxWidth o t)) : IsRow (max 1 maxWidth) o.metric row := by
  rw [lines_fitWidth, List.mem_flatMap] at hrow
  obtain ⟨line, -, hrow⟩ := hrow
  exact isRow_of_mem_lines_fitLine o.visible_metric_le hrow

/-- The rows that a line of the text is laid out in: a blank line is one empty row, any other has
rows that are not empty and hold all of it that is not blank. -/
structure IsLaidOut (line : Text) (rows : List Text) : Prop where
  content : withoutBlanks (unlines rows) = withoutBlanks line
  blank : isBlankText line = true → rows = [[]]
  rows_ne_nil : isBlankText line = false → rows ≠ []
  row_ne_nil : isBlankText line = false → ∀ row ∈ rows, row ≠ []

theorem isLaidOut_lines_fitLine (hvisible : ∀ n, metric.visible n ≤ n) (line : Text) :
    IsLaidOut line (lines (fitLine maxWidth metric line)) where
  content := by
    rw [unlines_lines]
    exact withoutBlanks_fitLine hvisible line
  blank := by
    intro hblank
    rw [fitLine_of_isBlankText hvisible hblank]
    rfl
  rows_ne_nil := fun _ => lines_ne_nil _
  row_ne_nil := by
    intro hblank
    rw [(lines_fitLine hvisible hblank).2, List.forall_mem_map]
    intro l hl hnil
    have hwords := nonemptyWords_unwords (isWord_of_mem_wrap hvisible hl)
    obtain ⟨ps, hholds⟩ := exists_holds_of_mem_wrap hvisible hl
    rw [← Line.text, hnil, nonemptyWords_nil] at hwords
    exact hholds.words_ne_nil hwords.symm

/-- Where every word fits on a line, a layout has the words of the text. -/
theorem nonemptyWords_fitWidth_of_fits {o : ParagraphOptions} {t : Text}
    (hfits : ∀ word ∈ splitAtBlanks t, o.metric.width word ≤ max 1 maxWidth) :
    nonemptyWords (fitWidth maxWidth o t) = nonemptyWords t := by
  have hline : ∀ line ∈ lines (o.source t),
      nonemptyWords (fitLine maxWidth o.metric line) = nonemptyWords line := by
    intro line hline
    rw [nonemptyWords_fitLine o.visible_metric_le]
    apply flatten_words_wrap_of_fits o.visible_metric_le
    intro word hword
    -- between two blanks of the line there may be nothing, and that takes no room
    by_cases hne : word = []
    · rw [hne, o.metric.width_nil o.visible_metric_le]
      exact Nat.zero_le _
    · have hmem : word ∈ nonemptyWords line := mem_nonemptyWords_iff.2 ⟨hword, hne⟩
      have hsource : word ∈ nonemptyWords (o.source t) := by
        rw [← flatMap_nonemptyWords_lines]
        exact List.mem_flatMap.2 ⟨line, hline, hmem⟩
      rw [o.nonemptyWords_source] at hsource
      exact hfits word (mem_nonemptyWords_iff.1 hsource).1
  rw [nonemptyWords_fitWidth, List.flatMap_congr hline, flatMap_nonemptyWords_lines,
    o.nonemptyWords_source]

/-! ## Layouts -/

/-- **A layout fits as it is shown and keeps the text.** With abbreviated links each line is no
wider than the width, and it has single spaces only, none of them at its ends. All that is not blank
is kept. Where newlines are kept, each line of the text comes in rows of its own, blank lines as
empty ones; only a blank line behind the last newline goes. -/
theorem fitWidth_fits_and_keeps_text (maxWidth : Nat) (o : ParagraphOptions) (t : Text) :
    (∀ line ∈ lines (fitWidth maxWidth o t),
        (unwords ((words line).map o.shown)).length ≤ max 1 maxWidth
        ∧ (∀ c ∈ line.head?, isBlank c = false) ∧ (∀ c ∈ line.getLast?, isBlank c = false)
        ∧ ¬ [' ', ' '] <:+: line)
      ∧ withoutBlanks (fitWidth maxWidth o t) = withoutBlanks t
      ∧ (o.discardNewlines = false → ∃ rows,
          lines (fitWidth maxWidth o t) = rows.flatten
          ∧ List.Forall₂ IsLaidOut (keptLines (lines t)) rows) := by
  refine ⟨fun line hline => ?_, withoutBlanks_fitWidth maxWidth o t, fun hnewlines => ?_⟩
  · have hrow := isRow_of_mem_lines_fitWidth maxWidth o hline
    exact ⟨hrow.length_shown_le, fun _ => hrow.isBlank_of_mem_head?,
      fun _ => hrow.isBlank_of_mem_getLast?, hrow.not_two_spaces⟩
  · have hsource : o.source t = t := by
      unfold ParagraphOptions.source
      rw [hnewlines]
      rfl
    refine ⟨(keptLines (lines t)).map fun line => lines (fitLine maxWidth o.metric line), ?_, ?_⟩
    · rw [lines_fitWidth, hsource, List.flatMap_def]
    · rw [List.forall₂_map_right_iff, List.forall₂_same]
      exact fun line _ => isLaidOut_lines_fitLine o.visible_metric_le line

/-- A link is laid out in the width of what is shown of it. Of the two blank lines behind the text
the last one goes. -/
theorem fitWidth_fits_and_keeps_text_long_link :
    let o : ParagraphOptions := { abbreviateLinks := true }
    let row := "a www.".toList ++ List.replicate 50 'x'
    let t := "\ta\u2003 www.".toList ++ List.replicate 50 'x' ++ "\n \n\nb c\n\n".toList
    o.discardNewlines = false
      ∧ lines (fitWidth 47 o t) = [row, [], [], "b c".toList, []]
      ∧ row ∈ lines (fitWidth 47 o t)
      ∧ ((unwords ((words row).map o.shown)).length ≤ 47
        ∧ (∀ c ∈ row.head?, isBlank c = false) ∧ (∀ c ∈ row.getLast?, isBlank c = false)
        ∧ ¬ [' ', ' '] <:+: row)
      ∧ withoutBlanks (fitWidth 47 o t) = withoutBlanks t
      ∧ ∃ rows, lines (fitWidth 47 o t) = rows.flatten
          ∧ List.Forall₂ IsLaidOut (keptLines (lines t)) rows := by
  intro o row t
  have hlines : lines (fitWidth 47 o t) = [row, [], [], "b c".toList, []] := by decide
  have hrow : row ∈ lines (fitWidth 47 o t) := by
    rw [hlines]
    exact List.mem_cons_self
  obtain ⟨hfits, hkeeps, hrows⟩ := fitWidth_fits_and_keeps_text 47 o t
  exact ⟨rfl, hlines, hrow, hfits row hrow, hkeeps, hrows rfl⟩

/-- **A layout is stable.** Laid out again with its newlines, it stays as it is, but for the newline
at its end. -/
theorem fitWidth_fitWidth (maxWidth : Nat) (o : ParagraphOptions) (t : Text) :
    fitWidth maxWidth { o with discardNewlines := false } (fitWidth maxWidth o t)
      = dropFinalNewline (fitWidth maxWidth o t) := by
  have hrows : (lines (fitWidth maxWidth o t)).map (fitLine maxWidth o.metric)
      = lines (fitWidth maxWidth o t) := by
    refine (List.map_congr_left fun row hrow => ?_).trans (List.map_id' _)
    exact (isRow_of_mem_lines_fitWidth maxWidth o hrow).fitLine_eq
  have hsource : ParagraphOptions.source { o with discardNewlines := false }
      (fitWidth maxWidth o t) = fitWidth maxWidth o t := rfl
  have hmetric : ParagraphOptions.metric { o with discardNewlines := false } = o.metric := rfl
  rw [fitWidth_eq maxWidth { o with discardNewlines := false }, hsource, hmetric, hrows,
    unlines_lines]

/-- **A layout shows the same emoticons.** If every word fits on a line, a layout holds the
emoticons of the text, in order, and costs what the text costs. -/
theorem emoticonCodes_fitWidth (r : Registry) (maxWidth : Nat) (o : ParagraphOptions) (t : Text)
    (hfits : ∀ word ∈ splitAtBlanks t, o.metric.width word ≤ max 1 maxWidth) :
    emoticonCodes r (fitWidth maxWidth o t) = emoticonCodes r t
      ∧ price r (fitWidth maxWidth o t) = price r t := by
  have hcodes : emoticonCodes r (fitWidth maxWidth o t) = emoticonCodes r t := by
    rw [← flatMap_emoticonCodes_nonemptyWords, nonemptyWords_fitWidth_of_fits hfits,
      flatMap_emoticonCodes_nonemptyWords]
  exact ⟨hcodes, price_congr hcodes⟩

/-- Delimiters that stood on two lines meet on one and make no new marker. The link counts as it is
shown, and keeps the marker in it. -/
theorem emoticonCodes_fitWidth_long_link :
    let r : Registry := { emoticons := [⟨1, 16, 16, 3, ⟨6, 0⟩⟩] }
    let o : ParagraphOptions := { discardNewlines := true, abbreviateLinks := true }
    let t := "$1\n$ 1$1$\t$1$ www.$1$".toList ++ List.replicate 50 'x'
    (∀ word ∈ splitAtBlanks t, o.metric.width word ≤ 45)
      ∧ lines (fitWidth 45 o t)
          = ["$1 $ 1$1$ $1$".toList, "www.$1$".toList ++ List.replicate 50 'x']
      ∧ emoticonCodes r t = [1, 1, 1]
      ∧ emoticonCodes r (fitWidth 45 o t) = emoticonCodes r t
      ∧ price r (fitWidth 45 o t) = price r t := by
  intro r o t
  have hfits : ∀ word ∈ splitAtBlanks t, o.metric.width word ≤ 45 := by decide
  exact ⟨hfits, by decide, by decide, emoticonCodes_fitWidth r 45 o t hfits⟩

end Layout
end ChatText
