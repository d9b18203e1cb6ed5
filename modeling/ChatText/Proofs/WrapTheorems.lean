import ChatText.Layout.Line
import ChatText.Link
import ChatText.Proofs.LineTheorems
import Mathlib.Algebra.Order.BigOperators.Group.List
import Mathlib.Algebra.Order.Ring.Nat

/-!
# Lines and the words packed into them

A wrapped line does not show which of its words are whole and which are pieces of a word that was
cut. `Part` keeps that apart, and `Line.Holds` says what is true of a line that holds certain
parts. Packing keeps it at each step, so the parts on the lines are those of the words, in order
(`packs_wrapFrom`); the bounds on the width and the places of the cuts are read off there.
-/

namespace ChatText
namespace Layout

variable {limit : Nat} {metric : Metric}

/-! ## Parts of words -/

/-- What is packed: a whole word, or a piece of a word that is cut. -/
inductive Part where
  | whole (word : Text)
  | first (piece : Text)
  | middle (piece : Text)
  | last (piece : Text)
  deriving DecidableEq, Repr

namespace Part

/-- The symbols of the part. -/
def text : Part → Text
  | whole t | first t | middle t | last t => t

/-- Is the part a word that is not cut? -/
def isWhole : Part → Bool
  | whole _ => true
  | first _ | middle _ | last _ => false

/-- Does a word begin with the part? -/
def beginsWord : Part → Bool
  | whole _ | first _ => true
  | middle _ | last _ => false

/-- Does a word end with the part? -/
def endsWord : Part → Bool
  | whole _ | last _ => true
  | first _ | middle _ => false

/-- The width that the part is packed with: a piece counts in full, even if it looks like a link. -/
def width (metric : Metric) : Part → Nat
  | whole t => metric.width t
  | first t | middle t | last t => t.length

end Part

/-- The parts of a word: the word itself if it fits on a line, otherwise two pieces or more. -/
inductive PartsOf (limit : Nat) (metric : Metric) : Text → List Part → Prop
  | whole {word : Text} (hfits : metric.width word ≤ limit) :
      PartsOf limit metric word [.whole word]
  | cut {first last : Text} {middle : List Text} {word : Text}
      (hwide : limit < metric.width word) (hword : first ++ middle.flatten ++ last = word)
      (hfirst : first ≠ []) (hmiddle : ∀ piece ∈ middle, piece ≠ []) (hlast : last ≠ []) :
      PartsOf limit metric word (.first first :: (middle.map .middle ++ [.last last]))

/-- The width of parts on one line, with a space between neighbours. -/
def partsWidth (metric : Metric) (ps : List Part) : Nat :=
  (ps.map (Part.width metric)).sum + (ps.length - 1)

theorem partsWidth_concat {ps : List Part} (hps : ps ≠ []) (p : Part) :
    partsWidth metric (ps ++ [p]) = partsWidth metric ps + 1 + p.width metric := by
  have hpos : 0 < ps.length := List.length_pos_iff.2 hps
  unfold partsWidth
  simp only [List.map_append, List.sum_append, List.length_append, List.map_singleton,
    List.sum_singleton, List.length_singleton]
  omega

/-! ## Lines -/

/-- What is true of a line that holds the parts. -/
structure Line.Holds (limit : Nat) (metric : Metric) (line : Line) (ps : List Part) : Prop where
  words : line.words = ps.map Part.text
  nonempty : ps ≠ []
  width : line.width = partsWidth metric ps
  width_le : line.width ≤ limit
  /-- Behind a part there is no piece that goes on with a word. -/
  begins : ∀ p ∈ ps.tail, p.beginsWord = true
  /-- In front of a part there is no piece whose word goes on. -/
  ends : ∀ p ∈ ps.dropLast, p.endsWord = true
  /-- A word goes on on the next line only if the line is full. -/
  full : ∀ p ∈ ps.getLast?, p.endsWord = false → line.width = limit

/-- The line that is being packed: it has no words yet, or its last part ends a word. -/
def Line.InHand (limit : Nat) (metric : Metric) (line : Line) (ps : List Part) : Prop :=
  line.words = [] ∧ ps = []
    ∨ line.Holds limit metric ps ∧ ∀ p ∈ ps.getLast?, p.endsWord = true

namespace Line

variable {line : Line} {ps : List Part}

theorem taken_of_ne_nil (hline : line.words ≠ []) : line.taken = line.width + 1 := by
  unfold taken
  rw [if_neg hline]

theorem finish_of_ne_nil (hline : line.words ≠ []) : line.finish = [line] := by
  unfold finish
  rw [if_neg hline]

theorem push_words_ne_nil (line : Line) (word : Text) (width : Nat) :
    (line.push word width).words ≠ [] :=
  List.append_ne_nil_of_right_ne_nil line.words (List.cons_ne_nil word [])

theorem Holds.words_ne_nil (h : line.Holds limit metric ps) : line.words ≠ [] := by
  rw [h.words]
  simpa using h.nonempty

/-- A line with one part. -/
theorem holds_single (p : Part) (hle : p.width metric ≤ limit)
    (hfull : p.endsWord = false → p.width metric = limit) :
    Holds limit metric ⟨[p.text], p.width metric⟩ [p] where
  words := rfl
  nonempty := List.cons_ne_nil _ _
  width := by simp [partsWidth]
  width_le := hle
  begins := by simp
  ends := by simp
  full := by simpa using hfull

/-- A line that has just been started with a part that ends a word. -/
theorem inHand_single (p : Part) (hends : p.endsWord = true) (hle : p.width metric ≤ limit) :
    InHand limit metric ⟨[p.text], p.width metric⟩ [p] := by
  refine Or.inr ⟨holds_single p hle fun h => ?_, by simpa using hends⟩
  rw [hends] at h
  cases h

/-- One more part that begins a word and fits. -/
theorem InHand.push (h : line.InHand limit metric ps) (p : Part) (hbegins : p.beginsWord = true)
    (hle : line.taken + p.width metric ≤ limit)
    (hfull : p.endsWord = false → line.taken + p.width metric = limit) :
    (line.push p.text (p.width metric)).Holds limit metric (ps ++ [p]) := by
  rcases h with ⟨hwords, rfl⟩ | ⟨hline, hends⟩
  · have htaken : line.taken = 0 := by
      unfold taken
      rw [if_pos hwords]
    unfold Line.push
    rw [htaken, Nat.zero_add] at hle hfull ⊢
    rw [hwords]
    exact holds_single p hle hfull
  · have htaken : line.taken = line.width + 1 := taken_of_ne_nil hline.words_ne_nil
    refine ⟨?_, by simp, ?_, hle, ?_, ?_, ?_⟩
    · simp [Line.push, hline.words]
    · rw [partsWidth_concat hline.nonempty, ← hline.width, ← htaken]
      rfl
    · rw [List.tail_append_of_ne_nil hline.nonempty]
      intro q hq
      rcases List.mem_append.1 hq with hq | hq
      · exact hline.begins q hq
      · rw [List.mem_singleton.1 hq, hbegins]
    · -- the parts so far: the last one ends a word as well
      rw [List.dropLast_concat]
      intro q hq
      rw [← List.dropLast_append_getLast hline.nonempty] at hq
      rcases List.mem_append.1 hq with hq | hq
      · exact hline.ends q hq
      · refine hends q ?_
        rw [List.mem_singleton.1 hq]
        exact List.getLast?_eq_some_getLast hline.nonempty
    · simpa [Line.push] using hfull

/-- The line is finished with the parts it holds. -/
theorem InHand.finish (h : line.InHand limit metric ps) :
    ∃ onLines, List.Forall₂ (Holds limit metric) line.finish onLines ∧ onLines.flatten = ps := by
  rcases h with ⟨hwords, rfl⟩ | ⟨hline, -⟩
  · unfold Line.finish
    rw [if_pos hwords]
    exact ⟨[], .nil, rfl⟩
  · rw [finish_of_ne_nil hline.words_ne_nil]
    exact ⟨[ps], .cons hline .nil, by simp⟩

end Line

/-! ## Cutting a word -/

/-- Cutting a text gives full lines and the line that what is left starts. -/
theorem exists_fullLines (hlimit : 0 < limit) {t : Text} (ht : t ≠ []) :
    ∃ (full : List Text) (last : Text), full.flatten ++ last = t
      ∧ (∀ piece ∈ full, piece.length = limit) ∧ last ≠ [] ∧ last.length ≤ limit
      ∧ fullLines limit t = (full.map fun piece => ⟨[piece], limit⟩, ⟨[last], last.length⟩) := by
  obtain ⟨full, last, hcut, hfull, hlast, hle⟩ := exists_cut hlimit ht
  refine ⟨full, last, ?_, hfull, hlast, hle, ?_⟩
  · have hflatten := flatten_cut limit t
    rw [hcut] at hflatten
    simpa using hflatten
  · unfold fullLines
    simp [hcut, hlast, Line.push, Line.taken]

/-- A full line holds a piece of a word that goes on. -/
theorem holds_fullLine {p : Part} (hwidth : p.width metric = limit) :
    Line.Holds limit metric ⟨[p.text], limit⟩ [p] := by
  have hholds : Line.Holds limit metric ⟨[p.text], p.width metric⟩ [p] :=
    Line.holds_single p (Nat.le_of_eq hwidth) fun _ => hwidth
  rwa [hwidth] at hholds

theorem forall₂_holds_fullLines {pieces : List Text}
    (hfull : ∀ piece ∈ pieces, piece.length = limit) :
    List.Forall₂ (Line.Holds limit metric) (pieces.map fun piece => ⟨[piece], limit⟩)
      (pieces.map fun piece => [.middle piece]) := by
  rw [List.forall₂_map_left_iff, List.forall₂_map_right_iff, List.forall₂_same]
  exact fun piece hpiece => holds_fullLine (p := .middle piece) (hfull piece hpiece)

theorem Metric.width_le_length (hvisible : ∀ n, metric.visible n ≤ n) (word : Text) :
    metric.width word ≤ word.length := by
  unfold Metric.width
  split
  · exact hvisible word.length
  · exact Nat.le_refl _

/-- The empty word takes nothing, as a link or not. -/
theorem Metric.width_nil (hvisible : ∀ n, metric.visible n ≤ n) : metric.width [] = 0 :=
  Nat.le_zero.1 (metric.width_le_length hvisible [])

/-- A part shows at most the width it is packed with. -/
theorem Part.width_text_le (hvisible : ∀ n, metric.visible n ≤ n) (p : Part) :
    metric.width p.text ≤ p.width metric := by
  cases p with
  | whole word => exact Nat.le_refl _
  | first piece | middle piece | last piece => exact metric.width_le_length hvisible piece

/-- A word that is too wide for a line: what the lines hold up to its last piece, and that piece
on the line that is then in hand. -/
theorem exists_parts_cut (hlimit : 0 < limit) (hvisible : ∀ n, metric.visible n ≤ n)
    {line : Line} {held : List Part} (hline : line.InHand limit metric held) {word : Text}
    (hwide : limit < metric.width word) (room : Nat) (hroom : room = limit - line.taken) :
    ∃ ps last onLines, PartsOf limit metric word (ps ++ [last]) ∧ onLines.flatten = held ++ ps
      ∧ List.Forall₂ (Line.Holds limit metric)
          ((if room = 0 then line else line.push (word.take room) room).finish
            ++ (fullLines limit (word.drop room)).1) onLines
      ∧ (fullLines limit (word.drop room)).2.InHand limit metric [last] := by
  have hlen : limit < word.length := Nat.lt_of_lt_of_le hwide (metric.width_le_length hvisible word)
  have hrest : word.drop room ≠ [] := by
    rw [ne_eq, List.drop_eq_nil_iff]
    omega
  obtain ⟨full, last, hword, hfull, hlast, hle, hlines⟩ := exists_fullLines hlimit hrest
  have hpieces : ∀ piece ∈ full, piece ≠ [] := fun piece hpiece =>
    List.ne_nil_of_length_pos (by rw [hfull piece hpiece]; exact hlimit)
  have hnext : Line.InHand limit metric ⟨[last], last.length⟩ [.last last] :=
    Line.inHand_single (.last last) rfl hle
  rw [hlines]
  by_cases hzero : room = 0
  · -- no room is left, so the first piece is a full line as well
    rw [hzero, List.drop_zero] at hword
    rw [if_pos hzero]
    obtain ⟨onLines, hfinish, hheld⟩ := hline.finish
    cases full with
    | nil =>
      have hshort : last = word := by simpa using hword
      rw [hshort] at hle
      omega
    | cons first middle =>
      rw [List.forall_mem_cons] at hfull hpieces
      have hfirst : Line.Holds limit metric ⟨[first], limit⟩ [.first first] :=
        holds_fullLine (p := .first first) hfull.1
      refine ⟨.first first :: middle.map .middle, .last last, _,
        .cut hwide (by simpa using hword) hpieces.1 hpieces.2 hlast, ?_,
        List.rel_append hfinish (.cons hfirst (forall₂_holds_fullLines hfull.2)), hnext⟩
      simp [hheld, ← List.flatMap_def, ← List.map_eq_flatMap]
  · -- the first piece fills the line in hand
    have htaken : line.taken + room = limit := by omega
    have hsize : (word.take room).length = room := by
      rw [List.length_take]
      omega
    have hpush := hline.push (.first (word.take room)) rfl
    simp only [Part.width, Part.text, hsize] at hpush
    have hfilled := hpush (Nat.le_of_eq htaken) fun _ => htaken
    have hfinish :
        (line.push (word.take room) room).finish = [line.push (word.take room) room] :=
      Line.finish_of_ne_nil hfilled.words_ne_nil
    have hfirst : word.take room ≠ [] := List.ne_nil_of_length_pos (by omega)
    have happend : word.take room ++ full.flatten ++ last = word := by
      rw [List.append_assoc, hword, List.take_append_drop]
    rw [if_neg hzero, hfinish]
    refine ⟨.first (word.take room) :: full.map .middle, .last last, _,
      .cut hwide happend hfirst hpieces hlast, ?_,
      .cons hfilled (forall₂_holds_fullLines hfull), hnext⟩
    simp [← List.flatMap_def, ← List.map_eq_flatMap]

/-! ## Packing -/

/-- The lines hold what is held so far and then the parts of the words, in order. -/
def Packs (limit : Nat) (metric : Metric) (held : List Part) (words : List Text)
    (packed : List Line) : Prop :=
  ∃ parts onLines,
    List.Forall₂ (PartsOf limit metric) (words.filter (· ≠ [])) parts
    ∧ onLines.flatten = held ++ parts.flatten
    ∧ List.Forall₂ (Line.Holds limit metric) packed onLines

namespace Packs

variable {held ps : List Part} {onLines : List (List Part)} {words : List Text}
  {packed packed' : List Line}

/-- Lines that are finished, in front of the others. -/
theorem append (hpacked : List.Forall₂ (Line.Holds limit metric) packed onLines)
    (h : Packs limit metric held words packed') :
    Packs limit metric (onLines.flatten ++ held) words (packed ++ packed') := by
  obtain ⟨parts, onLines', hparts, hflatten, hlines⟩ := h
  refine ⟨parts, onLines ++ onLines', hparts, ?_, List.rel_append hpacked hlines⟩
  rw [List.flatten_append, hflatten, List.append_assoc]

/-- Of what is held so far, the last parts are those of a word. -/
theorem cons {word : Text} (hword : word ≠ []) (hps : PartsOf limit metric word ps)
    (h : Packs limit metric (held ++ ps) words packed) :
    Packs limit metric held (word :: words) packed := by
  obtain ⟨parts, onLines, hparts, hflatten, hlines⟩ := h
  refine ⟨ps :: parts, onLines, ?_, ?_, hlines⟩
  · rw [List.filter_cons_of_pos (by simpa using hword)]
    exact .cons hps hparts
  · rw [hflatten, List.flatten_cons, List.append_assoc]

end Packs

/-- The lines that are packed hold the parts of the line in hand and then those of the words. -/
theorem packs_wrapFrom (hlimit : 0 < limit) (hvisible : ∀ n, metric.visible n ≤ n)
    (words : List Text) {line : Line} {held : List Part}
    (hline : line.InHand limit metric held) :
    Packs limit metric held words (wrapFrom limit metric line words) := by
  fun_induction wrapFrom limit metric line words generalizing held with
  | case1 line =>
    obtain ⟨onLines, hfinish, rfl⟩ := hline.finish
    exact ⟨[], onLines, .nil, by simp, hfinish⟩
  | case2 line rest ih => exact ih hline
  | case3 line word rest hword hfits ih =>
    have hle : metric.width word ≤ limit := by omega
    have hpush := hline.push (.whole word) rfl hfits fun h => Bool.noConfusion h
    exact .cons hword (.whole hle) (ih (Or.inr ⟨hpush, by simp [Part.endsWord]⟩))
  | case4 line word rest hword hfits hle ih =>
    have hstart : (Line.push {} word (metric.width word)).InHand limit metric [.whole word] := by
      have hpush : Line.push {} word (metric.width word) = ⟨[word], metric.width word⟩ := by
        simp [Line.push, Line.taken]
      rw [hpush]
      exact Line.inHand_single (.whole word) rfl hle
    obtain ⟨onLines, hfinish, rfl⟩ := hline.finish
    exact .cons hword (.whole hle) (.append hfinish (ih hstart))
  | case5 line word rest hword hfits hwide room filled full next hlines =>
    rename_i ih
    obtain ⟨ps, last, onLines, hps, hheld, hholds, hnext⟩ :=
      exists_parts_cut hlimit hvisible hline (Nat.lt_of_not_le hwide) room rfl
    rw [hlines] at hholds hnext
    refine .cons hword hps ?_
    rw [← List.append_assoc, ← hheld]
    exact .append hholds (ih hnext)

/-! ## Wrapped lines -/

theorem packs_wrap (hvisible : ∀ n, metric.visible n ≤ n) (maxWidth : Nat) (words : List Text) :
    Packs (max 1 maxWidth) metric [] words (wrap maxWidth metric words) := by
  have hlimit : 0 < max 1 maxWidth := by omega
  exact packs_wrapFrom hlimit hvisible words (Or.inl ⟨rfl, rfl⟩)

/-- Each wrapped line holds parts of the words. -/
theorem exists_holds_of_mem_wrap (hvisible : ∀ n, metric.visible n ≤ n) {maxWidth : Nat}
    {words : List Text} {line : Line} (hline : line ∈ wrap maxWidth metric words) :
    ∃ ps, line.Holds (max 1 maxWidth) metric ps := by
  obtain ⟨parts, onLines, -, -, hlines⟩ := packs_wrap hvisible maxWidth words
  obtain ⟨ps, -, hholds⟩ := exists_of_mem_left hlines hline
  exact ⟨ps, hholds⟩

/-- The width that the words of a line are shown with, a space between neighbours included. -/
def Line.shownWidth (metric : Metric) (line : Line) : Nat :=
  (line.words.map metric.width).sum + (line.words.length - 1)

namespace Line.Holds

variable {line : Line} {ps : List Part}

/-- A line shows at most the width it is packed with: pieces that look like links are shown
shorter. -/
theorem shownWidth_le (h : line.Holds limit metric ps) (hvisible : ∀ n, metric.visible n ≤ n) :
    line.shownWidth metric ≤ line.width := by
  have hsum : (ps.map fun p => metric.width p.text).sum ≤ (ps.map (Part.width metric)).sum :=
    List.sum_le_sum fun p _ => p.width_text_le hvisible
  rw [h.width, shownWidth, partsWidth, h.words, List.map_map, List.length_map]
  exact Nat.add_le_add_right hsum _

/-- A line without pieces shows the width it is packed with. -/
theorem shownWidth_eq (h : line.Holds limit metric ps) (hwhole : ∀ p ∈ ps, p.isWhole = true) :
    line.shownWidth metric = line.width := by
  have hmap : ps.map (fun p => metric.width p.text) = ps.map (Part.width metric) := by
    refine List.map_congr_left fun p hp => ?_
    cases p with
    | whole word => rfl
    | first piece | middle piece | last piece => cases hwhole _ hp
  rw [h.width, shownWidth, partsWidth, h.words, List.map_map, List.length_map, ← hmap]
  rfl

/-- Only at the end of a full line does a word go on, and only at its start is it gone on with. -/
theorem cut_only_at_ends (h : line.Holds limit metric ps) {before after : List Part} {p : Part}
    (hps : ps = before ++ p :: after) :
    (p.endsWord = false → after = [] ∧ line.width = limit)
      ∧ (p.beginsWord = false → before = []) := by
  constructor
  · intro hends
    have hafter : after = [] := by
      by_contra hne
      have hmem : p ∈ ps.dropLast := by
        rw [hps, List.dropLast_append_of_ne_nil (List.cons_ne_nil _ _),
          List.dropLast_cons_of_ne_nil hne]
        exact List.mem_append_right _ List.mem_cons_self
      rw [h.ends p hmem] at hends
      cases hends
    refine ⟨hafter, h.full p ?_ hends⟩
    rw [hps, hafter, List.getLast?_concat]
    rfl
  · intro hbegins
    by_contra hne
    have hmem : p ∈ ps.tail := by
      rw [hps, List.tail_append_of_ne_nil hne]
      exact List.mem_append_right _ List.mem_cons_self
    rw [h.begins p hmem] at hbegins
    cases hbegins

end Line.Holds

/-- **Wrapped lines fit.** Each line has words, is no wider than the limit and shows no more than
its width; a line shows exactly its width if no word on it is a piece of a word that was cut. -/
theorem wrapped_lines_fit (hvisible : ∀ n, metric.visible n ≤ n) (maxWidth : Nat)
    (words : List Text) :
    (∀ line ∈ wrap maxWidth metric words, line.words ≠ [] ∧ line.width ≤ max 1 maxWidth
        ∧ line.shownWidth metric ≤ line.width)
      ∧ ∃ parts onLines,
          List.Forall₂ (PartsOf (max 1 maxWidth) metric) (words.filter (· ≠ [])) parts
          ∧ onLines.flatten = parts.flatten
          ∧ List.Forall₂ (fun line ps => line.words = ps.map Part.text
                ∧ ((∀ p ∈ ps, p.isWhole = true) → line.shownWidth metric = line.width))
              (wrap maxWidth metric words) onLines := by
  obtain ⟨parts, onLines, hparts, hflatten, hlines⟩ := packs_wrap hvisible maxWidth words
  constructor
  · intro line hline
    obtain ⟨i, hi, rfl⟩ := List.getElem_of_mem hline
    have hholds := hlines.get hi (hlines.length_eq ▸ hi)
    exact ⟨hholds.words_ne_nil, hholds.width_le, hholds.shownWidth_le hvisible⟩
  · exact ⟨parts, onLines, hparts, hflatten, hlines.imp fun line ps h => ⟨h.words, h.shownWidth_eq⟩⟩

/-- Links count short, and a piece of a word looks like one: its line is wider than it shows. -/
theorem wrapped_lines_fit_link_in_word :
    let metric : Metric := ⟨Link.isWeb, (min · 4)⟩
    let words := ["to", "", "www.abc", "x", "abcwww.defg", "y"].map String.toList
    (∀ n, metric.visible n ≤ n)
      ∧ (wrap 5 metric words).map (fun line => (line.width, line.shownWidth metric))
          = [(2, 2), (4, 4), (5, 5), (5, 4), (5, 5)]
      ∧ (∀ line ∈ wrap 5 metric words, line.words ≠ [] ∧ line.width ≤ 5
          ∧ line.shownWidth metric ≤ line.width)
      ∧ ∃ parts onLines,
          List.Forall₂ (PartsOf 5 metric) (words.filter (· ≠ [])) parts
          ∧ onLines.flatten = parts.flatten
          ∧ List.Forall₂ (fun line ps => line.words = ps.map Part.text
                ∧ ((∀ p ∈ ps, p.isWhole = true) → line.shownWidth metric = line.width))
              (wrap 5 metric words) onLines := by
  intro metric words
  have hvisible : ∀ n, metric.visible n ≤ n := fun n => Nat.min_le_left n 4
  exact ⟨hvisible, by decide, wrapped_lines_fit hvisible 5 words⟩

/-- **Wrapping keeps the words.** The parts on the lines, in order, are the parts of the words that
are not empty: a word that fits on a line is whole, a wider one comes in pieces that are not empty
and make it up. A piece that a word does not end with ends a line that is full, and a piece that a
word does not begin with begins a line. -/
theorem exists_parts_wrap (hvisible : ∀ n, metric.visible n ≤ n) (maxWidth : Nat)
    (words : List Text) :
    ∃ parts onLines,
      List.Forall₂ (PartsOf (max 1 maxWidth) metric) (words.filter (· ≠ [])) parts
      ∧ onLines.flatten = parts.flatten
      ∧ List.Forall₂ (fun line ps => line.words = ps.map Part.text
            ∧ ∀ before p after, ps = before ++ p :: after →
                (p.endsWord = false → after = [] ∧ line.width = max 1 maxWidth)
                ∧ (p.beginsWord = false → before = []))
          (wrap maxWidth metric words) onLines := by
  obtain ⟨parts, onLines, hparts, hflatten, hlines⟩ := packs_wrap hvisible maxWidth words
  exact ⟨parts, onLines, hparts, hflatten,
    hlines.imp fun line ps h => ⟨h.words, fun before p after => h.cut_only_at_ends⟩⟩

/-- One word is cut three times: to fill a line that is begun, to a full line, and to what the next
word follows. -/
theorem exists_parts_wrap_link_in_word :
    let metric : Metric := ⟨Link.isWeb, (min · 4)⟩
    let words := ["to", "", "www.abc", "x", "abcwww.defg", "y"].map String.toList
    (∀ n, metric.visible n ≤ n)
      ∧ (wrap 5 metric words).map Line.words = [["to"], ["www.abc"], ["x", "abc"], ["www.d"],
          ["efg", "y"]].map (List.map String.toList)
      ∧ ∃ parts onLines,
          List.Forall₂ (PartsOf 5 metric) (words.filter (· ≠ [])) parts
          ∧ onLines.flatten = parts.flatten
          ∧ List.Forall₂ (fun line ps => line.words = ps.map Part.text
                ∧ ∀ before p after, ps = before ++ p :: after →
                    (p.endsWord = false → after = [] ∧ line.width = 5)
                    ∧ (p.beginsWord = false → before = []))
              (wrap 5 metric words) onLines := by
  intro metric words
  have hvisible : ∀ n, metric.visible n ≤ n := fun n => Nat.min_le_left n 4
  exact ⟨hvisible, by decide, exists_parts_wrap hvisible 5 words⟩

end Layout
end ChatText
