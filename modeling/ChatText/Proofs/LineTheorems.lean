import ChatText.Text.Blank
import Mathlib.Data.List.Forall2
import Mathlib.Data.List.Infix
import Mathlib.Data.List.TakeWhile

/-!
# Texts in parts

What the library does to a text it does part by part:

* `exists_gaps` says what a split at separators does: the text is its first piece and then, again
  and again, a separator and the piece behind it. Lines, words and the runs between blanks are the
  three splits of the library. Joined texts split into the pieces of each (`splitOnP_intercalate`,
  `lines_unlines`);
* `withoutBlanks` is what no stage of a display may lose;
* a trimmed text is a text without the blanks at its ends (`exists_blanks_trim`), and ends with
  none;
* what stands before a symbol of another kind can be told from what follows
  (`append_inj_of_head?`);
* `Parted` says that a text falls into consecutive parts that stand for the members of a list, and
  `rel_intercalate` that what holds of parts can be carried over to joined texts;
* the pieces that a long word is cut into make up the word (`flatten_cut`), and all but the last
  one are full (`exists_cut`).
-/

namespace ChatText

/-- A piece of a split with the separator in front of it. -/
abbrev Gap := Char × Text

/-- The text of a piece and the separator in front of it. -/
def Gap.text (g : Gap) : Text := g.1 :: g.2

/-- A text is its first piece and the other pieces, each behind its separator; the pieces
themselves hold no separator. -/
theorem exists_gaps (p : Char → Bool) (t : Text) :
    ∃ (first : Text) (gaps : List Gap),
      t.splitOnP p = first :: gaps.map Prod.snd ∧ t = first ++ gaps.flatMap Gap.text
        ∧ (∀ c ∈ first, p c = false)
        ∧ ∀ g ∈ gaps, p g.1 = true ∧ ∀ c ∈ g.2, p c = false := by
  induction t with
  | nil => exact ⟨[], [], by simp [List.splitOnP_nil], rfl, by simp, by simp⟩
  | cons c t ih =>
    obtain ⟨first, gaps, hsplit, htext, hfirst, hgaps⟩ := ih
    rw [List.splitOnP_cons_eq_if_modifyHead, hsplit]
    by_cases hc : p c = true
    · refine ⟨[], (c, first) :: gaps, by simp [hc], ?_, by simp, ?_⟩
      · rw [List.flatMap_cons, Gap.text, List.nil_append, List.cons_append, ← htext]
      · intro g hg
        rcases List.mem_cons.1 hg with rfl | hg
        · exact ⟨hc, hfirst⟩
        · exact hgaps g hg
    · refine ⟨c :: first, gaps, by simp [hc], by rw [List.cons_append, ← htext], ?_, hgaps⟩
      intro x hx
      rcases List.mem_cons.1 hx with rfl | hx
      · simpa using hc
      · exact hfirst x hx

/-- The pieces of a split hold only symbols of the text, and no separator. -/
theorem of_mem_splitOnP {p : Char → Bool} {t w : Text} (hw : w ∈ t.splitOnP p) {c : Char}
    (hc : c ∈ w) : c ∈ t ∧ p c = false := by
  obtain ⟨first, gaps, hsplit, htext, hfirst, hgaps⟩ := exists_gaps p t
  rw [hsplit] at hw
  rcases List.mem_cons.1 hw with rfl | hw
  · rw [htext]
    exact ⟨List.mem_append_left _ hc, hfirst c hc⟩
  · obtain ⟨g, hg, rfl⟩ := List.mem_map.1 hw
    rw [htext]
    exact ⟨List.mem_append_right _ (List.mem_flatMap.2 ⟨g, hg, List.mem_cons_of_mem _ hc⟩),
      (hgaps g hg).2 c hc⟩

/-- The pieces of a split are parts of the text. -/
theorem infix_of_mem_splitOnP {p : Char → Bool} {t w : Text} (hw : w ∈ t.splitOnP p) :
    w <:+: t := by
  obtain ⟨first, gaps, hsplit, htext, -, -⟩ := exists_gaps p t
  rw [hsplit, List.mem_cons] at hw
  rw [htext]
  cases hw with
  | inl hfirst => exact hfirst ▸ (List.prefix_append _ _).isInfix
  | inr hgap =>
    obtain ⟨g, hg, rfl⟩ := List.mem_map.1 hgap
    have hin : Gap.text g <:+: gaps.flatMap Gap.text :=
      List.infix_of_mem_flatten (List.mem_map_of_mem hg)
    have hpiece : g.2 <:+: Gap.text g := (List.suffix_cons g.1 g.2).isInfix
    exact (hpiece.trans hin).trans (List.suffix_append _ _).isInfix

/-- Turning every separator into `sep` joins the pieces by `sep`. -/
theorem map_separators (p : Char → Bool) (sep : Char) (t : Text) :
    t.map (fun c => if p c then sep else c) = [sep].intercalate (t.splitOnP p) := by
  induction t with
  | nil => simp [List.splitOnP_nil]
  | cons c t ih =>
    obtain ⟨first, others, hsplit⟩ := List.exists_cons_of_ne_nil (List.splitOnP_ne_nil p t)
    rw [List.map_cons, ih, List.splitOnP_cons_eq_if_modifyHead, hsplit]
    by_cases hc : p c = true
    · rw [if_pos hc, if_pos hc, List.intercalate_cons_of_ne_nil (List.cons_ne_nil _ _)]
      rfl
    · rw [if_neg hc, if_neg hc, List.modifyHead_cons, List.intercalate_cons_cons_left]

/-- A text joined by a separator splits into what its parts split into. -/
theorem splitOnP_intercalate {p : Char → Bool} {c : Char} (hc : p c = true) {ts : List Text}
    (hts : ts ≠ []) : ([c].intercalate ts).splitOnP p = ts.flatMap (·.splitOnP p) := by
  induction ts with
  | nil => exact absurd rfl hts
  | cons t ts ih =>
    by_cases hrest : ts = []
    · simp [hrest]
    · rw [List.intercalate_cons_of_ne_nil hrest, List.append_assoc, List.singleton_append,
        List.splitOnP_append_cons _ _ hc, ih hrest, List.flatMap_cons]

/-- What relates parts, and is kept when texts are put together, relates the joined parts if it
relates the separators. -/
theorem rel_intercalate {α β γ : Type} {R : List α → List β → Prop} (hnil : R [] [])
    (happend : ∀ {s s' t t'}, R s t → R s' t' → R (s ++ s') (t ++ t')) {x : α} {y : β}
    (hsep : R [x] [y]) {f : γ → List α} {g : γ → List β} {parts : List γ}
    (h : ∀ part ∈ parts, R (f part) (g part)) :
    R ([x].intercalate (parts.map f)) ([y].intercalate (parts.map g)) := by
  induction parts with
  | nil => exact hnil
  | cons part parts ih =>
    rw [List.forall_mem_cons] at h
    by_cases hparts : parts = []
    · subst hparts
      simpa using h.1
    · have hne : ∀ {δ : Type} (f : γ → δ), parts.map f ≠ [] := fun f => by simpa using hparts
      rw [List.map_cons, List.map_cons, List.intercalate_cons_of_ne_nil (hne f),
        List.intercalate_cons_of_ne_nil (hne g)]
      exact happend (happend h.1 hsep) (ih h.2)

/-- What is made of each member is made of joined lists by joining it. -/
theorem flatMap_intercalate {α β : Type} (f : α → List β) (sep : List α) (parts : List (List α)) :
    (sep.intercalate parts).flatMap f
      = (sep.flatMap f).intercalate (parts.map fun part => part.flatMap f) := by
  induction parts with
  | nil => rfl
  | cons part parts ih =>
    by_cases hrest : parts = []
    · rw [hrest, List.intercalate_singleton, List.map_singleton, List.intercalate_singleton]
    · have hrest' : parts.map (fun part => part.flatMap f) ≠ [] := by simpa using hrest
      rw [List.map_cons, List.intercalate_cons_of_ne_nil hrest,
        List.intercalate_cons_of_ne_nil hrest', List.flatMap_append, List.flatMap_append, ih]

/-- Joined by nothing, parts are put together. -/
theorem nil_intercalate {α : Type} (parts : List (List α)) :
    [].intercalate parts = parts.flatten := by
  induction parts with
  | nil => rfl
  | cons part parts ih =>
    by_cases hparts : parts = []
    · simp [hparts]
    · rw [List.intercalate_cons_of_ne_nil hparts, ih, List.append_nil, List.flatten_cons]

/-- One more part comes behind one more separator. -/
theorem intercalate_concat {α : Type} (x : α) {parts : List (List α)} (hparts : parts ≠ [])
    (part : List α) :
    [x].intercalate (parts ++ [part]) = [x].intercalate parts ++ x :: part := by
  induction parts with
  | nil => exact absurd rfl hparts
  | cons first parts ih =>
    by_cases hrest : parts = []
    · subst hrest
      simp
    · rw [List.cons_append, List.intercalate_cons_of_ne_nil (by simp), ih hrest,
        List.intercalate_cons_of_ne_nil hrest, List.append_assoc _ _ (x :: part)]

/-- Joined parts end like the last one. -/
theorem getLast?_intercalate_concat {α : Type} (x : α) (parts : List (List α)) {part : List α}
    (hpart : part ≠ []) : ([x].intercalate (parts ++ [part])).getLast? = part.getLast? := by
  by_cases hparts : parts = []
  · rw [hparts, List.nil_append, List.intercalate_singleton]
  · rw [intercalate_concat x hparts, List.getLast?_append_cons,
      List.getLast?_cons_of_ne_nil hpart]

/-- What stands in joined parts is the separator or stands in one of them. -/
theorem of_mem_intercalate {α : Type} {x c : α} {parts : List (List α)}
    (h : c ∈ [x].intercalate parts) : c = x ∨ ∃ part ∈ parts, c ∈ part := by
  induction parts with
  | nil => cases h
  | cons part parts ih =>
    by_cases hparts : parts = []
    · rw [hparts, List.intercalate_singleton] at h
      exact Or.inr ⟨part, List.mem_cons_self, h⟩
    · rw [List.intercalate_cons_of_ne_nil hparts, List.append_assoc, List.mem_append,
        List.singleton_append, List.mem_cons] at h
      rcases h with h | h | h
      · exact Or.inr ⟨part, List.mem_cons_self, h⟩
      · exact Or.inl h
      · refine (ih h).imp_right fun ⟨part', hpart', hc⟩ => ?_
        exact ⟨part', List.mem_cons_of_mem part hpart', hc⟩

/-- A part of a joined list with no separator in it is a part of one of the lists. -/
theorem exists_infix_of_infix_intercalate {α : Type} {x : α} {s : List α} {parts : List (List α)}
    (h : s <:+: [x].intercalate parts) (hs : s ≠ []) (hx : x ∉ s) :
    ∃ part ∈ parts, s <:+: part := by
  induction parts with
  | nil => exact absurd (List.infix_nil.1 h) hs
  | cons part parts ih =>
    have hfirst : s <:+: part → ∃ p ∈ part :: parts, s <:+: p := fun h =>
      ⟨part, List.mem_cons_self, h⟩
    by_cases hrest : parts = []
    · rw [hrest, List.intercalate_singleton] at h
      exact hfirst h
    · rw [List.intercalate_cons_of_ne_nil hrest, List.append_assoc, List.singleton_append,
        List.infix_append_iff] at h
      -- a part that starts with the separator, or reaches it, would hold it
      have hstart : ∀ {u : List α}, u <:+ s → u <+: x :: [x].intercalate parts → u = [] := by
        intro u hus hu
        rcases List.prefix_cons_iff.1 hu with hnil | ⟨u', rfl, -⟩
        · exact hnil
        · exact absurd (hus.subset List.mem_cons_self) hx
      rcases h with h | h | ⟨s₁, s₂, rfl, h₁, h₂⟩
      · exact hfirst h
      · rcases List.infix_cons_iff.1 h with h | h
        · exact absurd (hstart List.suffix_rfl h) hs
        · obtain ⟨p, hp, h⟩ := ih h
          exact ⟨p, List.mem_cons_of_mem part hp, h⟩
      · rw [hstart (List.suffix_append s₁ s₂) h₂, List.append_nil] at hfirst ⊢
        exact hfirst h₁.isInfix

/-- What stands in one of two related lists is related to a member of the other. -/
theorem exists_of_mem_left {α β : Type} {R : α → β → Prop} {xs : List α} {ys : List β}
    (h : List.Forall₂ R xs ys) {x : α} (hx : x ∈ xs) : ∃ y ∈ ys, R x y := by
  induction h with
  | nil => cases hx
  | cons hxy _ ih =>
    rcases List.mem_cons.1 hx with rfl | hx
    · exact ⟨_, List.mem_cons_self, hxy⟩
    · obtain ⟨y, hy, hR⟩ := ih hx
      exact ⟨y, List.mem_cons_of_mem _ hy, hR⟩

/-! ## Lines and words -/

@[simp] theorem unlines_lines (t : Text) : unlines (lines t) = t := List.intercalate_splitOn '\n'

@[simp] theorem unwords_words (t : Text) : unwords (words t) = t := List.intercalate_splitOn ' '

/-- Joined lines that may hold newlines themselves are split at these as well. -/
theorem lines_unlines {ls : List Text} (hls : ls ≠ []) : lines (unlines ls) = ls.flatMap lines := by
  unfold lines unlines
  simp only [List.splitOn_eq_splitOnP]
  exact splitOnP_intercalate (by simp) hls

/-- Lines are split again where they are joined. -/
theorem lines_append_cons (s t : Text) : lines (s ++ '\n' :: t) = lines s ++ lines t := by
  unfold lines
  simp only [List.splitOn_eq_splitOnP]
  exact List.splitOnP_append_cons s t (by simp)

/-- A text without newlines is one line. -/
theorem lines_of_not_mem {line : Text} (hline : '\n' ∉ line) : lines line = [line] :=
  List.splitOn_eq_singleton hline

/-- A line holds the symbols of the text other than newlines. -/
theorem of_mem_lines {t line : Text} (hline : line ∈ lines t) {c : Char} (hc : c ∈ line) :
    c ∈ t ∧ c ≠ '\n' := by
  rw [lines, List.splitOn_eq_splitOnP] at hline
  have h := of_mem_splitOnP hline hc
  exact ⟨h.1, by simpa using h.2⟩

/-- A word holds the symbols of the line other than spaces. -/
theorem of_mem_words {line word : Text} (hword : word ∈ words line) {c : Char} (hc : c ∈ word) :
    c ∈ line ∧ c ≠ ' ' := by
  rw [words, List.splitOn_eq_splitOnP] at hword
  have h := of_mem_splitOnP hword hc
  exact ⟨h.1, by simpa using h.2⟩

/-- Words are split again where they are joined. -/
theorem words_append_space (s t : Text) : words (s ++ ' ' :: t) = words s ++ words t := by
  unfold words
  simp only [List.splitOn_eq_splitOnP]
  exact List.splitOnP_append_cons s t (by simp)

/-- A text without spaces is one word. -/
theorem words_of_not_mem {w : Text} (hw : ' ' ∉ w) : words w = [w] := List.splitOn_eq_singleton hw

/-- The first of several words is set off by a space. -/
theorem unwords_cons_cons (w x : Text) (ws : List Text) :
    unwords (w :: x :: ws) = w ++ ' ' :: unwords (x :: ws) := by
  unfold unwords
  rw [List.intercalate_cons_of_ne_nil (List.cons_ne_nil x ws), List.append_assoc,
    List.singleton_append]

/-- The first word is what the joined words start with. -/
theorem unwords_append_cons (s w : Text) (ws : List Text) :
    unwords ((s ++ w) :: ws) = s ++ unwords (w :: ws) := by
  cases ws with
  | nil => simp [unwords]
  | cons x ws => rw [unwords_cons_cons, unwords_cons_cons, List.append_assoc]

/-- Joined words are empty only if there are none. -/
theorem unwords_eq_nil_iff {ws : List Text} (hws : ∀ w ∈ ws, w ≠ []) :
    unwords ws = [] ↔ ws = [] := by
  constructor
  · intro h
    cases ws with
    | nil => rfl
    | cons w ws =>
      have hw := unwords_append_cons w [] ws
      rw [List.append_nil, h] at hw
      exact absurd (List.append_eq_nil_iff.1 hw.symm).1 (hws w List.mem_cons_self)
  · rintro rfl
    rfl

/-- One more word comes behind a space, unless it is the first one. -/
theorem unwords_concat {ws : List Text} (hws : ∀ w ∈ ws, w ≠ []) (w : Text) :
    unwords (ws ++ [w]) = if unwords ws = [] then w else unwords ws ++ ' ' :: w := by
  split
  · rename_i hempty
    rw [(unwords_eq_nil_iff hws).1 hempty, List.nil_append, unwords, List.intercalate_singleton]
  · rename_i hne
    exact intercalate_concat ' ' (fun hempty => hne ((unwords_eq_nil_iff hws).2 hempty)) w

/-- Turning newlines into spaces joins the lines like words. -/
theorem spaceNewlines_eq_unwords (t : Text) : spaceNewlines t = unwords (lines t) := by
  rw [lines, List.splitOn_eq_splitOnP, unwords, ← map_separators]
  simp [spaceNewlines]

/-! ## The newline at the end -/

theorem lines_ne_nil (t : Text) : lines t ≠ [] := by
  rw [lines, List.splitOn_eq_splitOnP]
  exact List.splitOnP_ne_nil _ t

/-- A newline at the end starts one more line, an empty one. -/
theorem lines_append_newline (t : Text) : lines (t ++ ['\n']) = lines t ++ [[]] :=
  lines_append_cons t []

theorem dropFinalNewline_append_newline (t : Text) : dropFinalNewline (t ++ ['\n']) = t := by
  simp [dropFinalNewline]

theorem dropFinalNewline_eq_self {t : Text} (h : t.getLast? ≠ some '\n') :
    dropFinalNewline t = t := by
  rw [dropFinalNewline, if_neg h]

theorem ensureFinalNewline_append_newline (t : Text) :
    ensureFinalNewline (t ++ ['\n']) = t ++ ['\n'] := by
  simp [ensureFinalNewline]

/-- Whether a final newline was dropped or none was there, with one at the end the text is the same
as with one ensured. -/
theorem dropFinalNewline_append (t : Text) :
    dropFinalNewline t ++ ['\n'] = ensureFinalNewline t := by
  unfold dropFinalNewline ensureFinalNewline
  split
  · rename_i hlast
    exact List.dropLast_append_getLast? _ hlast
  · rfl

/-! ## What is not blank -/

/-- The symbols of a text that are not blank, in order. -/
def withoutBlanks (t : Text) : Text := t.filter fun c => !isBlank c

@[simp] theorem withoutBlanks_append (t t' : Text) :
    withoutBlanks (t ++ t') = withoutBlanks t ++ withoutBlanks t' := List.filter_append t t'

theorem withoutBlanks_eq_nil {t : Text} (h : ∀ c ∈ t, isBlank c = true) : withoutBlanks t = [] := by
  simpa [withoutBlanks] using h

theorem withoutBlanks_eq_self {t : Text} (h : ∀ c ∈ t, isBlank c = false) :
    withoutBlanks t = t := by
  simpa [withoutBlanks] using h

theorem not_mem_of_isBlank {t : Text} (ht : ∀ c ∈ t, isBlank c = false) {c : Char}
    (hc : isBlank c = true) : c ∉ t := by
  intro hmem
  rw [ht c hmem] at hc
  cases hc

theorem withoutBlanks_cons_of_isBlank {c : Char} (h : isBlank c = true) (t : Text) :
    withoutBlanks (c :: t) = withoutBlanks t := List.filter_cons_of_neg (by simp [h])

/-- Newlines are blank, and so are the spaces that stand for them. -/
theorem withoutBlanks_spaceNewlines (t : Text) :
    withoutBlanks (spaceNewlines t) = withoutBlanks t := by
  induction t with
  | nil => rfl
  | cons c t ih =>
    rw [spaceNewlines, List.map_cons, ← spaceNewlines]
    by_cases hc : c = '\n'
    · rw [if_pos hc, hc, withoutBlanks_cons_of_isBlank (by decide),
        withoutBlanks_cons_of_isBlank (by decide), ih]
    · rw [if_neg hc, withoutBlanks, List.filter_cons, ← withoutBlanks, ih, withoutBlanks,
        withoutBlanks, List.filter_cons]

/-! ## Trimmed texts -/

/-- A text is its trimmed self between two runs of blanks. -/
theorem exists_blanks_trim (t : Text) : ∃ before after, t = before ++ trim t ++ after
    ∧ (∀ c ∈ before, isBlank c = true) ∧ ∀ c ∈ after, isBlank c = true := by
  refine ⟨t.takeWhile isBlank, (((t.dropWhile isBlank).reverse).takeWhile isBlank).reverse, ?_,
    fun c hc => List.mem_takeWhile_imp hc, fun c hc => ?_⟩
  · rw [trim, List.append_assoc, ← List.reverse_append, List.takeWhile_append_dropWhile,
      List.reverse_reverse, List.takeWhile_append_dropWhile]
  · exact List.mem_takeWhile_imp (List.mem_reverse.1 hc)

/-- What is left behind the dropped members starts with another one. -/
theorem of_mem_head?_dropWhile {α : Type} {p : α → Bool} {l : List α} {x : α}
    (h : x ∈ (l.dropWhile p).head?) : p x = false := by
  have hnot := List.head?_dropWhile_not p l
  rw [Option.mem_def.1 h] at hnot
  exact hnot

theorem dropWhile_eq_self {p : Char → Bool} {t : Text} (h : ∀ c ∈ t.head?, p c = false) :
    t.dropWhile p = t := by
  cases t with
  | nil => rfl
  | cons c t => exact List.dropWhile_cons_of_neg (by simp [h c rfl])

/-- A trimmed text starts with no blank. -/
theorem isBlank_of_mem_head?_trim {t : Text} {c : Char} (h : c ∈ (trim t).head?) :
    isBlank c = false := by
  have hprefix : trim t <+: t.dropWhile isBlank := by
    rw [← List.reverse_suffix, trim, List.reverse_reverse]
    exact List.dropWhile_suffix _
  obtain ⟨rest, hrest⟩ := List.head?_eq_some_iff.1 h
  obtain ⟨after, hafter⟩ := hprefix
  refine of_mem_head?_dropWhile (l := t) ?_
  rw [← hafter, hrest]
  rfl

/-- A trimmed text ends with no blank. -/
theorem isBlank_of_mem_getLast?_trim {t : Text} {c : Char} (h : c ∈ (trim t).getLast?) :
    isBlank c = false := by
  rw [trim, List.getLast?_reverse] at h
  exact of_mem_head?_dropWhile h

/-- A text that has no blanks at its ends is not trimmed. -/
theorem trim_eq_self {t : Text} (hhead : ∀ c ∈ t.head?, isBlank c = false)
    (hlast : ∀ c ∈ t.getLast?, isBlank c = false) : trim t = t := by
  rw [trim, dropWhile_eq_self hhead, dropWhile_eq_self, List.reverse_reverse]
  rwa [List.head?_reverse]

/-- A blank behind a text is trimmed away. -/
theorem trim_append_blank (t : Text) {c : Char} (hc : isBlank c = true) :
    trim (t ++ [c]) = trim t := by
  rw [trim, trim, List.dropWhile_append]
  split
  · rename_i hblank
    rw [List.isEmpty_iff.1 hblank, List.dropWhile_cons_of_pos hc, List.dropWhile_nil]
  · rw [List.reverse_append, List.reverse_singleton, List.singleton_append,
      List.dropWhile_cons_of_pos hc]

/-- Of a blank text nothing is left. -/
theorem trim_eq_nil_of_isBlankText {t : Text} (h : isBlankText t = true) : trim t = [] := by
  rw [isBlankText, List.all_eq_true] at h
  rw [trim, List.dropWhile_eq_nil_iff.2 h]
  rfl

@[simp] theorem trim_trim (t : Text) : trim (trim t) = trim t :=
  trim_eq_self (fun _ => isBlank_of_mem_head?_trim) fun _ => isBlank_of_mem_getLast?_trim

/-! ## Up to a symbol of another kind -/

section

variable {p : Char → Bool} {s t rest rest' : Text}

theorem forall_ne_of_not_mem {separator : Char} (h : separator ∉ t) :
    ∀ c ∈ t, decide (c ≠ separator) = true := by
  intro c hc
  rw [decide_eq_true_eq]
  rintro rfl
  exact h hc

theorem takeWhile_append_of_head? (hs : ∀ c ∈ s, p c = true)
    (hrest : ∀ c ∈ rest.head?, p c = false) : (s ++ rest).takeWhile p = s := by
  rw [List.takeWhile_append_of_pos hs]
  cases rest with
  | nil => exact List.append_nil s
  | cons c rest => rw [List.takeWhile_cons_of_neg (by simp [hrest c rfl]), List.append_nil]

theorem dropWhile_append_of_head? (hs : ∀ c ∈ s, p c = true)
    (hrest : ∀ c ∈ rest.head?, p c = false) : (s ++ rest).dropWhile p = rest := by
  rw [List.dropWhile_append_of_pos hs, dropWhile_eq_self hrest]

/-- Two texts that end where symbols of another kind start are told apart whatever follows them. -/
theorem append_inj_of_head? (hs : ∀ c ∈ s, p c = true) (ht : ∀ c ∈ t, p c = true)
    (hrest : ∀ c ∈ rest.head?, p c = false) (hrest' : ∀ c ∈ rest'.head?, p c = false)
    (h : s ++ rest = t ++ rest') : s = t ∧ rest = rest' := by
  constructor
  · rw [← takeWhile_append_of_head? hs hrest, h, takeWhile_append_of_head? ht hrest']
  · rw [← dropWhile_append_of_head? hs hrest, h, dropWhile_append_of_head? ht hrest']

end

/-! ## Texts in parts -/

/-- The text falls into parts, one for each of the `xs`, in their order and related to them. -/
def Parted {α : Type} (R : α → Text → Prop) (xs : List α) (t : Text) : Prop :=
  ∃ parts, List.Forall₂ R xs parts ∧ parts.flatten = t

namespace Parted

variable {α β : Type} {R : α → Text → Prop} {x : α} {xs ys : List α} {s t : Text}

theorem nil : Parted R [] [] := ⟨[], .nil, rfl⟩

theorem cons (hx : R x s) (h : Parted R xs t) : Parted R (x :: xs) (s ++ t) := by
  obtain ⟨parts, hparts, rfl⟩ := h
  exact ⟨s :: parts, .cons hx hparts, rfl⟩

theorem single (hx : R x s) : Parted R [x] s := by
  simpa using cons hx nil

theorem append (h : Parted R xs s) (h' : Parted R ys t) : Parted R (xs ++ ys) (s ++ t) := by
  obtain ⟨parts, hparts, rfl⟩ := h
  obtain ⟨parts', hparts', rfl⟩ := h'
  exact ⟨parts ++ parts', List.rel_append hparts hparts', List.flatten_append⟩

theorem flatMap_congr {f : α → List β} {S : β → Text → Prop} {g : α → Text}
    (h : ∀ x ∈ xs, Parted S (f x) (g x)) : Parted S (xs.flatMap f) (xs.flatMap g) := by
  induction xs with
  | nil => exact nil
  | cons x xs ih =>
    rw [List.forall_mem_cons] at h
    exact h.1.append (ih h.2)

/-- What stands for a separator goes between what the parts fall into. -/
theorem intercalate {S : β → Text → Prop} {f : Text → List β} {sep : β} {c : Char}
    (hsep : S sep [c]) {ts : List Text} (h : ∀ t ∈ ts, Parted S (f t) t) :
    Parted S ([sep].intercalate (ts.map f)) ([c].intercalate ts) := by
  have hjoin := rel_intercalate (R := Parted S) (g := id) nil append (single hsep) h
  rwa [List.map_id] at hjoin

/-- Each part may fall into further parts. -/
theorem flatMap {S : β → Text → Prop} {f : α → List β} (h : Parted R xs t)
    (hf : ∀ x s, R x s → s <:+: t → Parted S (f x) s) : Parted S (xs.flatMap f) t := by
  obtain ⟨parts, hparts, rfl⟩ := h
  induction hparts with
  | nil => exact nil
  | @cons x s xs parts hx _ ih =>
    rw [List.flatMap_cons, List.flatten_cons]
    refine (hf x s hx (List.infix_append [] s _)).append (ih fun x s hx hs => hf x s hx ?_)
    exact hs.trans (List.suffix_append _ _).isInfix

end Parted

/-! ## Pieces of a fixed length -/

theorem cutFrom_ne_nil (size room : Nat) (t : Text) : cutFrom size room t ≠ [] := by
  fun_induction cutFrom size room t with
  | case1 | case2 => simp
  | case3 c t room ih => simpa using ih

theorem flatten_modifyHead_cons (c : Char) {pieces : List Text} (h : pieces ≠ []) :
    (pieces.modifyHead (c :: ·)).flatten = c :: pieces.flatten := by
  obtain ⟨piece, rest, rfl⟩ := List.exists_cons_of_ne_nil h
  rfl

theorem flatten_cutFrom (size room : Nat) (t : Text) : (cutFrom size room t).flatten = t := by
  fun_induction cutFrom size room t with
  | case1 => rfl
  | case2 c t ih =>
    rw [List.flatten_cons, List.nil_append, flatten_modifyHead_cons c (cutFrom_ne_nil _ _ t), ih]
  | case3 c t room ih => rw [flatten_modifyHead_cons c (cutFrom_ne_nil _ _ t), ih]

/-- The pieces of a text are the text. -/
theorem flatten_cut (size : Nat) (t : Text) : (cut size t).flatten = t :=
  flatten_cutFrom size size t

/-- A text that fits into the piece that is being filled is not cut. -/
theorem cutFrom_of_le (size : Nat) {room : Nat} {t : Text} (h : t.length ≤ room) :
    cutFrom size room t = [t] := by
  induction t generalizing room with
  | nil => simp [cutFrom]
  | cons c t ih =>
    cases room with
    | zero => simp at h
    | succ room =>
      have ht : t.length ≤ room := by simpa using h
      rw [cutFrom, ih ht, List.modifyHead_cons]

/-- A longer text is cut where the piece that is being filled is full. -/
theorem cutFrom_of_lt {size room : Nat} (hsize : 0 < size) {t : Text} (h : room < t.length) :
    cutFrom size room t = t.take room :: cut size (t.drop room) := by
  induction room generalizing t with
  | zero =>
    obtain ⟨c, t, rfl⟩ := List.exists_cons_of_length_pos h
    obtain ⟨k, rfl⟩ := Nat.exists_eq_add_of_lt hsize
    simp [cutFrom, cut]
  | succ room ih =>
    obtain ⟨c, t, rfl⟩ := List.exists_cons_of_length_pos (Nat.zero_lt_of_lt h)
    have ht : room < t.length := by simpa using h
    rw [cutFrom, ih ht, List.modifyHead_cons, List.take_succ_cons, List.drop_succ_cons]

/-- A text is cut into full pieces and one that is not empty. -/
theorem exists_cut {size : Nat} (hsize : 0 < size) {t : Text} (ht : t ≠ []) :
    ∃ full last, cut size t = full ++ [last] ∧ (∀ piece ∈ full, piece.length = size)
      ∧ last ≠ [] ∧ last.length ≤ size := by
  induction hn : t.length using Nat.strongRecOn generalizing t with
  | ind n ih =>
    by_cases hle : t.length ≤ size
    · exact ⟨[], t, cutFrom_of_le size hle, by simp, ht, hle⟩
    · -- the first piece is full, and what is left is shorter
      have hlt : size < t.length := Nat.lt_of_not_le hle
      have hdrop : (t.drop size).length < n := by
        rw [List.length_drop]
        omega
      have hne : t.drop size ≠ [] := by
        rw [ne_eq, List.drop_eq_nil_iff]
        exact hle
      obtain ⟨full, last, hcut, hfull, hlast⟩ := ih _ hdrop hne rfl
      refine ⟨t.take size :: full, last, ?_, List.forall_mem_cons.2 ⟨?_, hfull⟩, hlast⟩
      · rw [cut, cutFrom_of_lt hsize hlt, hcut, List.cons_append]
      · rw [List.length_take, Nat.min_eq_left (Nat.le_of_lt hlt)]

end ChatText
