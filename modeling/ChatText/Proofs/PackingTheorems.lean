import ChatText.Proofs.WrapTheorems
import Mathlib.Data.List.Chain
import Mathlib.Order.Bounds.Basic

/-!
# Lines are not ended early

A line is ended only when there is no room on it for what comes next.

* Words that fit on one line are packed onto one (`map_words_wrap`).
* Whatever the next line starts with, there was no room for it (`isChain_wrapFrom`). A line may be
  ended by a word that is too wide for the rest of the line, or by a cut; at a cut the line is full,
  or the piece that follows is as wide as a line (`isChain_cut`).
* Lines that are ended in this way are as few as they can be (`length_le_of_noRoom`): however the
  words are grouped, the groups never get ahead of the lines.
-/

namespace ChatText
namespace Layout

variable {limit : Nat} {metric : Metric}

/-! ## The width of words on a line -/

/-- The width of words on one line, with a space between neighbours. -/
def wordsWidth (metric : Metric) (ws : List Text) : Nat :=
  (ws.map metric.width).sum + (ws.length - 1)

@[simp] theorem wordsWidth_singleton (metric : Metric) (w : Text) :
    wordsWidth metric [w] = metric.width w := by
  simp [wordsWidth]

theorem wordsWidth_append (metric : Metric) {s t : List Text} (hs : s ≠ []) (ht : t ≠ []) :
    wordsWidth metric (s ++ t) = wordsWidth metric s + 1 + wordsWidth metric t := by
  have hspos : 0 < s.length := List.length_pos_iff.2 hs
  have htpos : 0 < t.length := List.length_pos_iff.2 ht
  unfold wordsWidth
  rw [List.map_append, List.sum_append, List.length_append]
  omega

/-- A part of a group of words takes no more than the group. -/
theorem wordsWidth_le_of_infix (metric : Metric) {s t : List Text} (h : s <:+: t) :
    wordsWidth metric s ≤ wordsWidth metric t := by
  have hsum : (s.map metric.width).sum ≤ (t.map metric.width).sum :=
    (h.sublist.map metric.width).sum_le_sum fun _ _ => Nat.zero_le _
  have hlength : s.length ≤ t.length := h.length_le
  unfold wordsWidth
  omega

/-- The words on a line take no more than the line does. -/
theorem Line.Holds.wordsWidth_words_le {line : Line} {ps : List Part}
    (h : line.Holds limit metric ps) (hvisible : ∀ n, metric.visible n ≤ n) :
    wordsWidth metric line.words ≤ limit :=
  Nat.le_trans (h.shownWidth_le hvisible) h.width_le

/-! ## Words that fit on one line -/

/-- Words that fit on the line in hand end up on it. -/
theorem map_words_wrapFrom {words : List Text} (hwords : ∀ w ∈ words, w ≠ []) {line : Line}
    (hne : line.words ++ words ≠ [])
    (hfits : words ≠ [] → line.taken + wordsWidth metric words ≤ limit) :
    (wrapFrom limit metric line words).map Line.words = [line.words ++ words] := by
  -- the line in hand grows, and with it what it takes; the rest of the words still fits behind it
  induction words generalizing line with
  | nil =>
    rw [List.append_nil] at hne ⊢
    unfold wrapFrom
    rw [Line.finish_of_ne_nil hne, List.map_singleton]
  | cons word rest ih =>
    rw [List.forall_mem_cons] at hwords
    have hwidth : line.taken + wordsWidth metric (word :: rest) ≤ limit :=
      hfits (List.cons_ne_nil word rest)
    have hword : line.taken + metric.width word ≤ limit := by
      have hle := wordsWidth_le_of_infix metric (List.prefix_append [word] rest).isInfix
      rw [wordsWidth_singleton, List.singleton_append] at hle
      omega
    have hpush := line.push_words_ne_nil word (metric.width word)
    unfold wrapFrom
    rw [if_neg hwords.1, if_pos hword, ih hwords.2]
    · simp [Line.push]
    · exact List.append_ne_nil_of_left_ne_nil hpush rest
    · intro hrest
      have happend := wordsWidth_append metric (List.cons_ne_nil word []) hrest
      rw [wordsWidth_singleton, List.singleton_append] at happend
      have htaken : (line.push word (metric.width word)).taken
          = line.taken + metric.width word + 1 := Line.taken_of_ne_nil hpush
      omega

/-- Words that fit on one line are packed onto one. -/
theorem map_words_wrap {maxWidth : Nat} {words : List Text} (hwords : ∀ w ∈ words, w ≠ [])
    (hne : words ≠ []) (hfits : wordsWidth metric words ≤ max 1 maxWidth) :
    (wrap maxWidth metric words).map Line.words = [words] := by
  unfold wrap
  apply map_words_wrapFrom hwords
  · exact hne
  · intro _
    show 0 + wordsWidth metric words ≤ max 1 maxWidth
    omega

/-! ## Where a line is ended -/

/-- Whatever parts the next line holds, the line has no room for the first of them. -/
def Line.NoRoomFor (limit : Nat) (metric : Metric) (line next : Line) : Prop :=
  ∀ p ps, next.Holds limit metric (p :: ps) → limit < line.width + 1 + p.width metric

/-- A full line has no room for anything. -/
theorem Line.noRoomFor_of_full {line : Line} (hfull : limit ≤ line.width) (next : Line) :
    line.NoRoomFor limit metric next := by
  intro p ps _
  omega

/-- No room for a word, no room for a line that starts with it. -/
theorem Line.noRoomFor_of_lt (hvisible : ∀ n, metric.visible n ≤ n) {line next : Line}
    (word : Text) (hlt : limit < line.width + 1 + metric.width word)
    (hfirst : [word] <+: next.words) : line.NoRoomFor limit metric next := by
  intro p ps hnext
  rw [hnext.words, List.map_cons, List.cons_prefix_cons] at hfirst
  have hle := p.width_text_le hvisible
  rw [← hfirst.1] at hle
  omega

/-- There is never room for a piece that fills a line. -/
theorem Line.noRoomFor_piece {line : Line} (piece : Text) :
    line.NoRoomFor limit metric ⟨[piece], limit⟩ := by
  intro p ps hnext
  have hwords : [piece] = (p :: ps).map Part.text := hnext.words
  have hps : ps = [] := by
    rw [List.map_cons, List.cons.injEq] at hwords
    exact List.map_eq_nil_iff.1 hwords.2.symm
  have hwidth : limit = partsWidth metric (p :: ps) := hnext.width
  subst hps
  have hsingle : partsWidth metric [p] = p.width metric := by
    simp [partsWidth]
  omega

/-- Full lines may stand in front of lines that are not ended early. -/
theorem isChain_append_of_full {full packed : List Line} (hfull : ∀ line ∈ full, limit ≤ line.width)
    (h : packed.IsChain (Line.NoRoomFor limit metric)) :
    (full ++ packed).IsChain (Line.NoRoomFor limit metric) := by
  induction full with
  | nil => exact h
  | cons line full ih =>
    rw [List.forall_mem_cons] at hfull
    rw [List.cons_append, List.isChain_cons]
    exact ⟨fun next _ => Line.noRoomFor_of_full hfull.1 next, ih hfull.2⟩

/-- The first of the lines goes on with the line in hand. -/
theorem prefix_of_mem_head?_wrapFrom {line : Line} (hline : line.words ≠ []) (words : List Text)
    {first : Line} (hfirst : first ∈ (wrapFrom limit metric line words).head?) :
    line.words <+: first.words := by
  fun_induction wrapFrom limit metric line words with
  | case1 line =>
    rw [Line.finish_of_ne_nil hline, List.head?_cons, Option.mem_some_iff] at hfirst
    subst hfirst
    exact List.prefix_refl _
  | case2 line rest ih => exact ih hline hfirst
  | case3 line word rest _ _ ih =>
    exact (List.prefix_append line.words [word]).trans (ih (line.push_words_ne_nil word _) hfirst)
  | case4 line word rest _ _ _ _ =>
    rw [Line.finish_of_ne_nil hline, List.singleton_append, List.head?_cons,
      Option.mem_some_iff] at hfirst
    subst hfirst
    exact List.prefix_refl _
  | case5 line word rest _ _ _ room filled full next _ _ =>
    have hprefix : line.words <+: filled.words := by
      show line.words <+: (if room = 0 then line else line.push (word.take room) room).words
      split
      · exact List.prefix_refl _
      · exact List.prefix_append _ _
    have hne : filled.words ≠ [] := fun hnil => hline (List.prefix_nil.1 (hnil ▸ hprefix))
    rw [Line.finish_of_ne_nil hne, List.append_assoc, List.singleton_append, List.head?_cons,
      Option.mem_some_iff] at hfirst
    rw [← hfirst]
    exact hprefix

/-- A line that is full holds one piece. -/
theorem eq_piece_of_mem_fullLines {t : Text} {line : Line} (h : line ∈ (fullLines limit t).1) :
    ∃ piece, line = ⟨[piece], limit⟩ := by
  unfold fullLines at h
  obtain ⟨piece, -, rfl⟩ := List.mem_map.1 h
  exact ⟨piece, rfl⟩

theorem le_width_of_mem_fullLines {t : Text} {line : Line} (h : line ∈ (fullLines limit t).1) :
    limit ≤ line.width := by
  obtain ⟨piece, rfl⟩ := eq_piece_of_mem_fullLines h
  exact Nat.le_refl limit

/-- A text that is too wide for a line fills one line or more. -/
theorem fullLines_ne_nil (hlimit : 0 < limit) {t : Text} (ht : limit < t.length) :
    (fullLines limit t).1 ≠ [] := by
  have hne : t ≠ [] := List.ne_nil_of_length_pos (Nat.zero_lt_of_lt ht)
  obtain ⟨full, last, htext, -, -, hle, hlines⟩ := exists_fullLines hlimit hne
  rw [hlines]
  intro hnil
  rw [List.map_eq_nil_iff.1 hnil, List.flatten_nil, List.nil_append] at htext
  rw [htext] at hle
  omega

/-- A word that is too wide for a line ends no line early: either its first piece fills the line in
hand, or there is no room on that line and the first piece fills the next one. -/
theorem isChain_cut (hlimit : 0 < limit) (line : Line) {word : Text} (hlong : limit < word.length)
    (room : Nat) (hroom : room = limit - line.taken) {packed : List Line}
    (hpacked : packed.IsChain (Line.NoRoomFor limit metric)) :
    ((if room = 0 then line else line.push (word.take room) room).finish
        ++ ((fullLines limit (word.drop room)).1 ++ packed)).IsChain
      (Line.NoRoomFor limit metric) := by
  have hrest := isChain_append_of_full
    (fun l hl => le_width_of_mem_fullLines (t := word.drop room) hl) hpacked
  by_cases hzero : room = 0
  · -- the line in hand stays as it is, so it was begun
    have htaken : limit ≤ line.taken := by omega
    have hline : line.words ≠ [] := by
      intro hnil
      unfold Line.taken at htaken
      rw [if_pos hnil] at htaken
      omega
    rw [hzero, List.drop_zero] at hrest ⊢
    rw [if_pos rfl, Line.finish_of_ne_nil hline, List.singleton_append, List.isChain_cons]
    refine ⟨fun l hl => ?_, hrest⟩
    rw [List.head?_append_of_ne_nil _ (fullLines_ne_nil hlimit hlong)] at hl
    obtain ⟨piece, rfl⟩ := eq_piece_of_mem_fullLines (List.mem_of_mem_head? hl)
    exact Line.noRoomFor_piece piece
  · have hwidth : limit ≤ (line.push (word.take room) room).width := by
      show limit ≤ line.taken + room
      omega
    rw [if_neg hzero, Line.finish_of_ne_nil (line.push_words_ne_nil _ _)]
    exact isChain_append_of_full (by simpa using hwidth) hrest

/-- No line is ended while there is room on it for what comes next. -/
theorem isChain_wrapFrom (hlimit : 0 < limit) (hvisible : ∀ n, metric.visible n ≤ n) (line : Line)
    (words : List Text) :
    (wrapFrom limit metric line words).IsChain (Line.NoRoomFor limit metric) := by
  fun_induction wrapFrom limit metric line words with
  | case1 line =>
    unfold Line.finish
    split
    · exact .nil
    · exact .singleton _
  | case2 line rest ih => exact ih
  | case3 line word rest _ _ ih => exact ih
  | case4 line word rest _ hfits _ ih =>
    by_cases hline : line.words = []
    · unfold Line.finish
      rw [if_pos hline]
      exact ih
    · rw [Line.finish_of_ne_nil hline, List.singleton_append, List.isChain_cons]
      refine ⟨fun next hnext => ?_, ih⟩
      -- the next line starts with the word that did not fit
      apply Line.noRoomFor_of_lt hvisible word
      · rw [Line.taken_of_ne_nil hline] at hfits
        omega
      · exact prefix_of_mem_head?_wrapFrom (List.cons_ne_nil word []) rest hnext
  | case5 line word rest _ _ hwide room filled full next hlines =>
    rename_i ih
    have hlong : limit < word.length :=
      Nat.lt_of_lt_of_le (Nat.lt_of_not_le hwide) (metric.width_le_length hvisible word)
    have hcut := isChain_cut hlimit line hlong room rfl ih
    rw [hlines, ← List.append_assoc] at hcut
    exact hcut

/-! ## Fewest lines -/

/-- The words in groups, in their order, each of which fits on a line. -/
structure Groups (limit : Nat) (metric : Metric) (words : List Text)
    (groups : List (List Text)) : Prop where
  flatten : groups.flatten = words
  nonempty : ∀ g ∈ groups, g ≠ []
  fits : ∀ g ∈ groups, wordsWidth metric g ≤ limit

/-- If the row has no room for the word that the next one starts with, a group that fits does not
reach beyond the row: what is left behind the row is left behind the group. -/
theorem flatten_suffix_of_noRoom {row g : List Text} {rows groups : List (List Text)}
    (hrows : ∀ row ∈ rows, row ≠ [])
    (hroom : ∀ next ∈ rows.head?, ∀ w ∈ next.head?, limit < wordsWidth metric (row ++ [w]))
    (hfits : wordsWidth metric g ≤ limit)
    (hbehind : (row :: rows).flatten <:+ (g :: groups).flatten) :
    rows.flatten <:+ groups.flatten := by
  obtain ⟨before, hbefore⟩ := hbehind
  rw [List.flatten_cons, List.flatten_cons, ← List.append_assoc,
    List.append_eq_append_iff] at hbefore
  rcases hbefore with ⟨more, hg, hmore⟩ | ⟨more, -, hmore⟩
  · cases more with
    | nil => exact ⟨[], hmore⟩
    | cons w more =>
      -- the group holds the row and the word behind it, so it would not fit
      exfalso
      cases rows with
      | nil => simp at hmore
      | cons next rows =>
        rw [List.forall_mem_cons] at hrows
        obtain ⟨v, others, rfl⟩ := List.exists_cons_of_ne_nil hrows.1
        rw [List.flatten_cons, List.cons_append, List.cons_append, List.cons.injEq] at hmore
        have hlt := hroom (v :: others) rfl v rfl
        have hin : row ++ [v] <:+: g := ⟨before, more, by simp [hg, hmore.1]⟩
        have hle := wordsWidth_le_of_infix metric hin
        omega
  · exact ⟨more, hmore.symm⟩

/-- If no row has room for the word that the next one starts with, the groups of no grouping that
fits get ahead of the rows: what is left behind some rows is left behind as many groups. -/
theorem length_le_of_noRoom {rows groups : List (List Text)} (hrows : ∀ row ∈ rows, row ≠ [])
    (hroom : rows.IsChain fun row next => ∀ w ∈ next.head?, limit < wordsWidth metric (row ++ [w]))
    (hfits : ∀ g ∈ groups, wordsWidth metric g ≤ limit)
    (hbehind : rows.flatten <:+ groups.flatten) : rows.length ≤ groups.length := by
  induction rows generalizing groups with
  | nil => exact Nat.zero_le _
  | cons row rows ih =>
    rw [List.forall_mem_cons] at hrows
    rw [List.isChain_cons] at hroom
    cases groups with
    | nil =>
      have hnil : (row :: rows).flatten = [] := List.suffix_nil.1 hbehind
      rw [List.flatten_cons, List.append_eq_nil_iff] at hnil
      exact absurd hnil.1 hrows.1
    | cons g groups =>
      rw [List.forall_mem_cons] at hfits
      have hrest := flatten_suffix_of_noRoom hrows.2 hroom.1 hfits.1 hbehind
      exact Nat.succ_le_succ (ih hrows.2 hroom.2 hfits.2 hrest)

/-! ## Wrapped lines -/

section

variable {packed : List Line} {onLines : List (List Part)} {words : List Text}
  {parts : List (List Part)}

/-- Of the part that the next line starts with it is known that there was no room for it. -/
theorem isChain_zip_of_noRoom (hlines : List.Forall₂ (Line.Holds limit metric) packed onLines)
    (hroom : packed.IsChain (Line.NoRoomFor limit metric)) :
    (packed.zip onLines).IsChain fun a b =>
      ∃ p ∈ b.2.head?, limit < a.1.width + 1 + p.width metric := by
  have hfst : (packed.zip onLines).map Prod.fst = packed :=
    List.map_fst_zip (Nat.le_of_eq hlines.length_eq)
  rw [← hfst, List.isChain_map] at hroom
  refine hroom.imp_of_mem_imp fun a b _ hb hab => ?_
  have hholds : b.1.Holds limit metric b.2 := List.forall₂_zip hlines hb
  obtain ⟨p, ps, hps⟩ := List.exists_cons_of_ne_nil hholds.nonempty
  refine ⟨p, by rw [hps]; rfl, hab p ps ?_⟩
  rw [← hps]
  exact hholds

/-- Words that fit on a line are not cut. -/
theorem eq_whole_of_partsOf (hfits : ∀ word ∈ words, metric.width word ≤ limit)
    (hparts : List.Forall₂ (PartsOf limit metric) words parts) :
    parts.flatten = words.map Part.whole := by
  induction hparts with
  | nil => rfl
  | cons hword _ ih =>
    rw [List.forall_mem_cons] at hfits
    rw [List.flatten_cons, List.map_cons, ih hfits.2]
    cases hword with
    | whole _ => rfl
    | cut hwide _ _ _ _ => exact absurd hfits.1 (Nat.not_le_of_lt hwide)

theorem isWhole_of_partsOf (hfits : ∀ word ∈ words, metric.width word ≤ limit)
    (hparts : List.Forall₂ (PartsOf limit metric) words parts) {p : Part} (hp : p ∈ parts.flatten) :
    p.isWhole = true := by
  rw [eq_whole_of_partsOf hfits hparts] at hp
  obtain ⟨word, -, rfl⟩ := List.mem_map.1 hp
  rfl

/-- The parts of a word make it up. -/
theorem PartsOf.flatten_map_text {word : Text} {ps : List Part}
    (h : PartsOf limit metric word ps) : (ps.map Part.text).flatten = word := by
  cases h with
  | whole => simp [Part.text]
  | cut _ hword _ _ _ =>
    rw [← hword]
    simp [Part.text, Function.comp_def]

/-- The parts of words make them up. -/
theorem flatten_map_text (hparts : List.Forall₂ (PartsOf limit metric) words parts) :
    (parts.flatten.map Part.text).flatten = words.flatten := by
  induction hparts with
  | nil => rfl
  | cons hword _ ih =>
    rw [List.flatten_cons, List.map_append, List.flatten_append, ih, hword.flatten_map_text,
      List.flatten_cons]

/-- The words on the lines are the texts of the parts. -/
theorem flatten_map_words (hlines : List.Forall₂ (Line.Holds limit metric) packed onLines) :
    (packed.map Line.words).flatten = onLines.flatten.map Part.text := by
  induction hlines with
  | nil => rfl
  | cons hline _ ih =>
    rw [List.map_cons, List.flatten_cons, ih, hline.words, List.flatten_cons, List.map_append]

end

variable {maxWidth : Nat} {words : List Text}

/-- Wrapping keeps the symbols of the words. -/
theorem flatten_words_wrap (hvisible : ∀ n, metric.visible n ≤ n) :
    ((wrap maxWidth metric words).map Line.words).flatten.flatten = words.flatten := by
  obtain ⟨parts, onLines, hparts, hflatten, hlines⟩ := packs_wrap hvisible maxWidth words
  rw [flatten_map_words hlines, hflatten, List.nil_append, flatten_map_text hparts,
    List.flatten_filter_ne_nil]

/-- Wrapping keeps words that fit on a line as they are. -/
theorem flatten_words_wrap_of_fits (hvisible : ∀ n, metric.visible n ≤ n)
    (hfits : ∀ word ∈ words, metric.width word ≤ max 1 maxWidth) :
    ((wrap maxWidth metric words).map Line.words).flatten = words.filter (· ≠ []) := by
  obtain ⟨parts, onLines, hparts, hflatten, hlines⟩ := packs_wrap hvisible maxWidth words
  have hwhole : parts.flatten = (words.filter (· ≠ [])).map Part.whole :=
    eq_whole_of_partsOf (fun word hword => hfits word (List.mem_filter.1 hword).1) hparts
  rw [flatten_map_words hlines, hflatten, List.nil_append, hwhole, List.map_map]
  exact List.map_id _

/-- Words that fit on a line are on the lines as groups. -/
theorem groups_wrap (hvisible : ∀ n, metric.visible n ≤ n)
    (hfits : ∀ word ∈ words, metric.width word ≤ max 1 maxWidth) :
    Groups (max 1 maxWidth) metric (words.filter (· ≠ []))
      ((wrap maxWidth metric words).map Line.words) where
  flatten := flatten_words_wrap_of_fits hvisible hfits
  nonempty := by
    rw [List.forall_mem_map]
    intro line hline
    obtain ⟨ps, hholds⟩ := exists_holds_of_mem_wrap hvisible hline
    exact hholds.words_ne_nil
  fits := by
    rw [List.forall_mem_map]
    intro line hline
    obtain ⟨ps, hholds⟩ := exists_holds_of_mem_wrap hvisible hline
    exact hholds.wordsWidth_words_le hvisible

/-- If the words fit on a line, each line is as wide as its words, and there was no room on it for
the word that the next line starts with. -/
theorem isChain_words_wrap (hvisible : ∀ n, metric.visible n ≤ n)
    (hfits : ∀ word ∈ words, metric.width word ≤ max 1 maxWidth) :
    ((wrap maxWidth metric words).map Line.words).IsChain fun row next =>
      ∀ w ∈ next.head?, max 1 maxWidth < wordsWidth metric (row ++ [w]) := by
  obtain ⟨parts, onLines, hparts, hflatten, hlines⟩ := packs_wrap hvisible maxWidth words
  have hwhole : ∀ ps ∈ onLines, ∀ p ∈ ps, p.isWhole = true := by
    intro ps hps p hp
    apply isWhole_of_partsOf (fun word hword => hfits word (List.mem_filter.1 hword).1) hparts
    rw [← List.nil_append parts.flatten, ← hflatten]
    exact List.mem_flatten.2 ⟨ps, hps, hp⟩
  rw [List.isChain_map]
  have hlimit : 0 < max 1 maxWidth := by omega
  have hchain := isChain_wrapFrom hlimit hvisible {} words
  refine hchain.imp_of_mem_imp fun line next hline hnext h => ?_
  intro w hw
  obtain ⟨ps, hps, hholds⟩ := exists_of_mem_left hlines hline
  obtain ⟨qs, hqs, hholds'⟩ := exists_of_mem_left hlines hnext
  obtain ⟨q, qs, rfl⟩ := List.exists_cons_of_ne_nil hholds'.nonempty
  have hlt := h q qs hholds'
  -- what the next line starts with is a whole word, as there are no pieces
  have hq : q = .whole w := by
    rw [hholds'.words, List.map_cons, List.head?_cons, Option.mem_some_iff] at hw
    have hisWhole := hwhole _ hqs q List.mem_cons_self
    cases q with
    | whole word => rw [← hw]; rfl
    | first piece | middle piece | last piece => cases hisWhole
  have hwidth : wordsWidth metric line.words = line.width := hholds.shownWidth_eq (hwhole ps hps)
  rw [wordsWidth_append metric hholds.words_ne_nil (List.cons_ne_nil w []), hwidth,
    wordsWidth_singleton]
  rw [hq] at hlt
  exact hlt

/-- **Lines are ended only where they have to be.** Whatever part the next line starts with, a whole
word or a piece of one, there was no room for it on the line before; and if every word fits on a
line, there are as few lines as in any grouping of the words into groups that fit. -/
theorem wrapped_lines_are_fewest (hvisible : ∀ n, metric.visible n ≤ n) (maxWidth : Nat)
    (words : List Text) :
    (∃ parts onLines,
        List.Forall₂ (PartsOf (max 1 maxWidth) metric) (words.filter (· ≠ [])) parts
        ∧ onLines.flatten = parts.flatten
        ∧ List.Forall₂ (fun line ps => line.words = ps.map Part.text)
            (wrap maxWidth metric words) onLines
        ∧ ((wrap maxWidth metric words).zip onLines).IsChain fun a b =>
            ∃ p ∈ b.2.head?, max 1 maxWidth < a.1.width + 1 + p.width metric)
      ∧ ((∀ word ∈ words, metric.width word ≤ max 1 maxWidth) →
          IsLeast {n | ∃ groups,
              Groups (max 1 maxWidth) metric (words.filter (· ≠ [])) groups ∧ groups.length = n}
            (wrap maxWidth metric words).length) := by
  constructor
  · obtain ⟨parts, onLines, hparts, hflatten, hlines⟩ := packs_wrap hvisible maxWidth words
    have hlimit : 0 < max 1 maxWidth := by omega
    exact ⟨parts, onLines, hparts, hflatten, hlines.imp fun line ps h => h.words,
      isChain_zip_of_noRoom hlines (isChain_wrapFrom hlimit hvisible {} words)⟩
  · intro hfits
    have hgroups := groups_wrap hvisible hfits
    constructor
    · exact ⟨_, hgroups, List.length_map _⟩
    · rintro n ⟨groups, hother, rfl⟩
      have hsame : ((wrap maxWidth metric words).map Line.words).flatten = groups.flatten :=
        hgroups.flatten.trans hother.flatten.symm
      have hle := length_le_of_noRoom hgroups.nonempty (isChain_words_wrap hvisible hfits)
        hother.fits ⟨[], hsame⟩
      rwa [List.length_map] at hle

/-- In front of a link that counts nothing there is no room on a full line; a line that is one
symbol short takes no piece of a word that is cut; and two links that count nothing take a line of
one symbol, with the space between them. -/
theorem wrapped_lines_are_fewest_links :
    let metric : Metric := ⟨Link.isWeb, fun _ => 0⟩
    let words := ["www.a", "www.b", "", "www.c", "x", "www.d"].map String.toList
    let cutWords := ["ab", "abcdefg", "www.a", "h"].map String.toList
    (∀ n, metric.visible n ≤ n)
      ∧ (∀ word ∈ words, metric.width word ≤ 1)
      ∧ (wrap 1 metric words).map Line.words
          = [["www.a", "www.b"], ["www.c"], ["x"], ["www.d"]].map (List.map String.toList)
      ∧ IsLeast {n | ∃ groups, Groups 1 metric (words.filter (· ≠ [])) groups ∧ groups.length = n} 4
      ∧ (wrap 3 metric cutWords).map (fun line => (line.words, line.width))
          = [(["ab".toList], 2), (["abc".toList], 3), (["def".toList], 3),
              (["g", "www.a"].map String.toList, 2), (["h".toList], 1)]
      ∧ ∃ parts onLines,
          List.Forall₂ (PartsOf 3 metric) (cutWords.filter (· ≠ [])) parts
          ∧ onLines.flatten = parts.flatten
          ∧ List.Forall₂ (fun line ps => line.words = ps.map Part.text)
              (wrap 3 metric cutWords) onLines
          ∧ ((wrap 3 metric cutWords).zip onLines).IsChain fun a b =>
              ∃ p ∈ b.2.head?, 3 < a.1.width + 1 + p.width metric := by
  intro metric words cutWords
  have hvisible : ∀ n, metric.visible n ≤ n := Nat.zero_le
  have hfits : ∀ word ∈ words, metric.width word ≤ 1 := by decide
  exact ⟨hvisible, hfits, by decide, (wrapped_lines_are_fewest hvisible 1 words).2 hfits, by decide,
    (wrapped_lines_are_fewest hvisible 3 cutWords).1⟩

end Layout
end ChatText
