import ChatText.Proofs.LineTheorems

/-!
# The words between blanks

`splitAtBlanks` takes a text apart at every blank, and `wordsWith` picks the wanted pieces.

* Blanks of any kind part words, and nothing else does: joined texts have the words of their parts
  (`wordsWith_intercalate`), and trimmed ones lose none (`wordsWith_trim`).
* The pieces that are not empty are the words proper (`nonemptyWords`, `IsWord`). Words that are
  joined by spaces are found again (`nonemptyWords_unwords`), and put together they are all of the
  text but its blanks (`flatten_nonemptyWords`).
-/

namespace ChatText

/-- The wanted ones among the runs of symbols between blanks, in order. -/
def wordsWith (wanted : Text → Bool) (t : Text) : List Text := (splitAtBlanks t).filter wanted

variable {wanted : Text → Bool}

/-- The words on both sides of a blank. -/
theorem wordsWith_append_blank (s : Text) {c : Char} (hc : isBlank c = true) (t : Text) :
    wordsWith wanted (s ++ c :: t) = wordsWith wanted s ++ wordsWith wanted t := by
  rw [wordsWith, splitAtBlanks, List.splitOnP_append_cons _ _ hc, List.filter_append]
  rfl

/-- A text without blanks is one word. -/
theorem wordsWith_of_not_blank {t : Text} (h : ∀ c ∈ t, isBlank c = false) :
    wordsWith wanted t = if wanted t then [t] else [] := by
  rw [wordsWith, splitAtBlanks, List.splitOnP_eq_singleton h, List.filter_singleton,
    cond_eq_ite]

theorem wordsWith_nil (hwanted : wanted [] = false) : wordsWith wanted [] = [] := by
  rw [wordsWith_of_not_blank (by simp), if_neg (by simp [hwanted])]

/-- Texts that are joined by a blank keep their words. -/
theorem wordsWith_intercalate (hwanted : wanted [] = false) {c : Char} (hc : isBlank c = true)
    (ts : List Text) : wordsWith wanted ([c].intercalate ts) = ts.flatMap (wordsWith wanted) := by
  by_cases hts : ts = []
  · rw [hts, List.intercalate_nil, wordsWith_nil hwanted, List.flatMap_nil]
  · rw [wordsWith, splitAtBlanks, splitOnP_intercalate hc hts, List.filter_flatMap]
    rfl

/-- Which blanks stand between the words makes no difference. -/
theorem splitAtBlanks_spaceBlanks (t : Text) : splitAtBlanks (spaceBlanks t) = splitAtBlanks t := by
  induction t with
  | nil => rfl
  | cons c t ih =>
    have hcons : spaceBlanks (c :: t)
        = (if c ≠ '\n' ∧ isBlank c then ' ' else c) :: spaceBlanks t := rfl
    rw [splitAtBlanks] at ih ⊢
    rw [hcons, List.splitOnP_cons_eq_if_modifyHead, ih, splitAtBlanks, splitAtBlanks,
      List.splitOnP_cons_eq_if_modifyHead]
    by_cases hc : isBlank c = true
    · have hspace : isBlank (if c ≠ '\n' ∧ isBlank c then ' ' else c) = true := by
        split
        · decide
        · exact hc
      rw [if_pos hspace, if_pos hc]
    · have hsame : (if c ≠ '\n' ∧ isBlank c then ' ' else c) = c := if_neg fun h => hc h.2
      rw [hsame, if_neg hc]

/-- A text keeps its words when it is trimmed. -/
theorem wordsWith_trim (hwanted : wanted [] = false) (t : Text) :
    wordsWith wanted (trim t) = wordsWith wanted t := by
  obtain ⟨before, after, hsplit, hbefore, hafter⟩ := exists_blanks_trim t
  have hblanks : ∀ s : Text, (∀ c ∈ s, isBlank c = true) →
      ∀ u, wordsWith wanted (s ++ u) = wordsWith wanted u := by
    intro s hs u
    induction s with
    | nil => rfl
    | cons c s ih =>
      rw [List.forall_mem_cons] at hs
      have hfirst : wordsWith wanted ([] ++ c :: (s ++ u))
          = wordsWith wanted [] ++ wordsWith wanted (s ++ u) :=
        wordsWith_append_blank [] hs.1 (s ++ u)
      rw [wordsWith_nil hwanted, List.nil_append, List.nil_append] at hfirst
      rw [List.cons_append, hfirst, ih hs.2]
  have hend : wordsWith wanted (trim t ++ after) = wordsWith wanted (trim t) := by
    cases after with
    | nil => rw [List.append_nil]
    | cons c after =>
      rw [List.forall_mem_cons] at hafter
      have hrest := hblanks after hafter.2 []
      rw [List.append_nil] at hrest
      rw [wordsWith_append_blank _ hafter.1, hrest, wordsWith_nil hwanted, List.append_nil]
  conv_rhs => rw [hsplit, List.append_assoc, hblanks before hbefore, hend]

/-! ## Words that are not empty -/

/-- What can stand between two blanks: a text that is not empty and holds no blank. -/
def IsWord (w : Text) : Prop := w ≠ [] ∧ ∀ c ∈ w, isBlank c = false

instance (w : Text) : Decidable (IsWord w) :=
  decidable_of_iff ((!w.isEmpty && w.all fun c => !isBlank c) = true) (by simp [IsWord])

/-- A piece of a word is a word, unless it is empty. -/
theorem IsWord.of_infix {w piece : Text} (hw : IsWord w) (hpiece : piece ≠ [])
    (hin : piece <:+: w) : IsWord piece :=
  ⟨hpiece, fun c hc => hw.2 c (hin.subset hc)⟩

/-- The words of a text that are not empty, in order. -/
def nonemptyWords (t : Text) : List Text := wordsWith (· ≠ []) t

theorem mem_nonemptyWords_iff {t w : Text} :
    w ∈ nonemptyWords t ↔ w ∈ splitAtBlanks t ∧ w ≠ [] := by
  unfold nonemptyWords wordsWith
  rw [List.mem_filter, decide_eq_true_eq]

theorem of_mem_nonemptyWords {t w : Text} (hw : w ∈ nonemptyWords t) : IsWord w := by
  rw [mem_nonemptyWords_iff] at hw
  exact ⟨hw.2, fun _ hc => (of_mem_splitOnP hw.1 hc).2⟩

@[simp] theorem nonemptyWords_nil : nonemptyWords [] = [] := wordsWith_nil (by decide)

/-- The empty pieces make no difference to what is made of each piece, if nothing is made of
them. -/
theorem flatMap_nonemptyWords {α : Type} {f : Text → List α} (hf : f [] = []) (t : Text) :
    (nonemptyWords t).flatMap f = (splitAtBlanks t).flatMap f := by
  unfold nonemptyWords wordsWith
  induction splitAtBlanks t with
  | nil => rfl
  | cons w ws ih =>
    by_cases hw : w = []
    · rw [List.filter_cons_of_neg (by simpa using hw), ih, List.flatMap_cons, hw, hf,
        List.nil_append]
    · rw [List.filter_cons_of_pos (by simpa using hw), List.flatMap_cons, ih, List.flatMap_cons]

/-- A word is its only word. -/
theorem IsWord.nonemptyWords_eq {w : Text} (hw : IsWord w) : nonemptyWords w = [w] := by
  rw [nonemptyWords, wordsWith_of_not_blank hw.2, if_pos (by simpa using hw.1)]

/-- Of pieces with a blank in front of each, the pieces are left. -/
theorem withoutBlanks_gaps {gaps : List Gap}
    (hgaps : ∀ g ∈ gaps, isBlank g.1 = true ∧ ∀ c ∈ g.2, isBlank c = false) :
    withoutBlanks (gaps.flatMap Gap.text) = (gaps.map Prod.snd).flatten := by
  induction gaps with
  | nil => rfl
  | cons g gaps ih =>
    rw [List.forall_mem_cons] at hgaps
    rw [List.flatMap_cons, withoutBlanks_append, ih hgaps.2, Gap.text,
      withoutBlanks_cons_of_isBlank hgaps.1.1, withoutBlanks_eq_self hgaps.1.2, List.map_cons,
      List.flatten_cons]

/-- The words of a text put together are the text without its blanks. -/
theorem flatten_nonemptyWords (t : Text) : (nonemptyWords t).flatten = withoutBlanks t := by
  obtain ⟨first, gaps, hsplit, htext, hfirst, hgaps⟩ := exists_gaps isBlank t
  unfold nonemptyWords wordsWith
  rw [List.flatten_filter_ne_nil, splitAtBlanks, hsplit, htext, withoutBlanks_append,
    withoutBlanks_eq_self hfirst, withoutBlanks_gaps hgaps, List.flatten_cons]

/-- A text has words unless it is blank. -/
theorem nonemptyWords_eq_nil_iff {t : Text} : nonemptyWords t = [] ↔ isBlankText t = true := by
  have hwords : nonemptyWords t = [] ↔ (nonemptyWords t).flatten = [] := by
    refine ⟨fun h => by rw [h]; rfl, fun h => ?_⟩
    rw [List.flatten_eq_nil_iff] at h
    rw [List.eq_nil_iff_forall_not_mem]
    intro w hw
    exact (of_mem_nonemptyWords hw).1 (h w hw)
  rw [hwords, flatten_nonemptyWords, withoutBlanks, List.filter_eq_nil_iff, isBlankText,
    List.all_eq_true]
  simp

/-- Words that are joined by spaces are found again. -/
theorem nonemptyWords_unwords {ws : List Text} (hws : ∀ w ∈ ws, IsWord w) :
    nonemptyWords (unwords ws) = ws := by
  have hword : ws.flatMap (wordsWith (· ≠ [])) = ws.flatMap fun w => [w] :=
    List.flatMap_congr fun w hw => (hws w hw).nonemptyWords_eq
  unfold nonemptyWords unwords
  rw [wordsWith_intercalate (by decide) (by decide), hword, List.flatMap_singleton']

/-- Between words that are joined by spaces there are no other pieces, wherever they are split. -/
theorem splitOnP_unwords {p : Char → Bool} (hspace : p ' ' = true)
    (hp : ∀ c, p c = true → isBlank c = true) {ws : List Text} (hws : ∀ w ∈ ws, IsWord w)
    (hne : ws ≠ []) : (unwords ws).splitOnP p = ws := by
  have hword : ws.flatMap (·.splitOnP p) = ws.flatMap fun w => [w] := by
    apply List.flatMap_congr
    intro w hw
    apply List.splitOnP_eq_singleton
    intro c hc
    have hsolid := (hws w hw).2 c hc
    by_contra hsep
    rw [hp c (by simpa using hsep)] at hsolid
    cases hsolid
  unfold unwords
  rw [splitOnP_intercalate hspace hne, hword, List.flatMap_singleton']

theorem splitAtBlanks_unwords {ws : List Text} (hws : ∀ w ∈ ws, IsWord w) (hne : ws ≠ []) :
    splitAtBlanks (unwords ws) = ws :=
  splitOnP_unwords (by decide) (fun _ h => h) hws hne

theorem words_unwords {ws : List Text} (hws : ∀ w ∈ ws, IsWord w) (hne : ws ≠ []) :
    words (unwords ws) = ws := by
  have hspace : ∀ c : Char, (c == ' ') = true → isBlank c = true := by
    intro c hc
    rw [beq_iff_eq] at hc
    rw [hc]
    decide
  unfold words
  rw [List.splitOn_eq_splitOnP]
  exact splitOnP_unwords (by decide) hspace hws hne

/-- Joined words start with no blank. -/
theorem isBlank_of_mem_head?_unwords {ws : List Text} (hws : ∀ w ∈ ws, IsWord w) {c : Char}
    (hc : c ∈ (unwords ws).head?) : isBlank c = false := by
  cases ws with
  | nil => cases hc
  | cons w ws =>
    have hword : IsWord w := hws w List.mem_cons_self
    obtain ⟨d, w, rfl⟩ := List.exists_cons_of_ne_nil hword.1
    rw [unwords, List.intercalate_cons_cons_left, List.head?_cons, Option.mem_some_iff] at hc
    rw [← hc]
    exact hword.2 d List.mem_cons_self

/-- Joined words end with no blank. -/
theorem isBlank_of_mem_getLast?_unwords {ws : List Text} (hws : ∀ w ∈ ws, IsWord w) {c : Char}
    (hc : c ∈ (unwords ws).getLast?) : isBlank c = false := by
  rcases List.eq_nil_or_concat' ws with rfl | ⟨front, w, rfl⟩
  · cases hc
  · have hword : IsWord w := hws w List.mem_concat_self
    rw [unwords, getLast?_intercalate_concat ' ' front hword.1] at hc
    exact hword.2 c (List.mem_of_getLast? hc)

theorem trim_unwords {ws : List Text} (hws : ∀ w ∈ ws, IsWord w) : trim (unwords ws) = unwords ws :=
  trim_eq_self (fun _ => isBlank_of_mem_head?_unwords hws)
    fun _ => isBlank_of_mem_getLast?_unwords hws

/-- The only blanks of joined words are the spaces between them. -/
theorem eq_space_of_mem_unwords {ws : List Text} (hws : ∀ w ∈ ws, IsWord w) {c : Char}
    (hc : c ∈ unwords ws) (hblank : isBlank c = true) : c = ' ' := by
  rcases of_mem_intercalate hc with hspace | ⟨w, hw, hmem⟩
  · exact hspace
  · rw [(hws w hw).2 c hmem] at hblank
    cases hblank

/-- Joined words stand on one line. -/
theorem lines_unwords {ws : List Text} (hws : ∀ w ∈ ws, IsWord w) :
    lines (unwords ws) = [unwords ws] := by
  refine lines_of_not_mem fun hnewline => ?_
  exact absurd (eq_space_of_mem_unwords hws hnewline (by decide)) (by decide)

/-- The words of joined lines are those of the lines. -/
theorem nonemptyWords_unlines (ls : List Text) :
    nonemptyWords (unlines ls) = ls.flatMap nonemptyWords :=
  wordsWith_intercalate (by decide) (by decide) ls

/-- The words of a text are those of its lines. -/
theorem flatMap_nonemptyWords_lines (t : Text) :
    (lines t).flatMap nonemptyWords = nonemptyWords t := by
  rw [← nonemptyWords_unlines, unlines_lines]

/-- A newline parts words like a space. -/
theorem nonemptyWords_spaceNewlines (t : Text) :
    nonemptyWords (spaceNewlines t) = nonemptyWords t := by
  have hspace : nonemptyWords (unwords (lines t)) = (lines t).flatMap nonemptyWords :=
    wordsWith_intercalate (by decide) (by decide) (lines t)
  rw [spaceNewlines_eq_unwords, hspace, flatMap_nonemptyWords_lines]

/-- The newline at the end is behind all words. -/
theorem nonemptyWords_dropFinalNewline (t : Text) :
    nonemptyWords (dropFinalNewline t) = nonemptyWords t := by
  unfold dropFinalNewline
  split
  · rename_i hlast
    have hdrop : t.dropLast ++ ['\n'] = t := List.dropLast_append_getLast? _ hlast
    have happend : nonemptyWords (t.dropLast ++ ['\n'])
        = nonemptyWords t.dropLast ++ nonemptyWords [] :=
      wordsWith_append_blank _ (by decide) []
    rw [hdrop, nonemptyWords_nil, List.append_nil] at happend
    exact happend.symm
  · rfl

end ChatText
