import ChatText.Message.Reply
import ChatText.Proofs.EncodedTagTheorems

/-!
# Quoted messages

A reply quotes the plain text of a message. Which blocks a scan finds in a text is told by its tags
alone, and all that is done to the spans of plain text keeps their tags: they are joined by spaces
(`plainText_eq_unwords`), taken apart into lines and put behind quote marks (`tagsIn_body`), and no
tag reaches over a blank or a quote mark.

A span in front of an opening tag holds none itself, and behind one that is never closed no closing
tag is left. So of all the tags of the spans the closing ones come first
(`unclosed_tags_plainSpans`), and a text with such tags has no block (`not_block_mem_events`).
-/

namespace ChatText
namespace Markup

/-! ## Tags that make no block -/

/-- No closing tag comes behind an opening one. -/
def Unclosed (ks : List TagKind) : Prop := ks.Pairwise fun k k' => k = .opening → k' = .opening

variable {ks ks' : List TagKind} {t : Text}

theorem unclosed_of_openings (h : ∀ k ∈ ks, k = .opening) : Unclosed ks :=
  List.pairwise_of_forall_mem_list fun _ _ k' hk' _ => h k' hk'

/-- Closing tags in front open nothing. -/
theorem Unclosed.append (h : Unclosed ks') (hclosing : ∀ k ∈ ks, k = .closing) :
    Unclosed (ks ++ ks') := by
  have hnot : ∀ k ∈ ks, k ≠ .opening := by
    intro k hk hopening
    rw [hclosing k hk] at hopening
    cases hopening
  refine List.pairwise_append.2 ⟨?_, h, fun k hk k' _ hopening => absurd hopening (hnot k hk)⟩
  exact List.pairwise_of_forall_mem_list fun k hk k' _ hopening => absurd hopening (hnot k hk)

/-- If the closing tags of a text come first, none stands from an opening one on. -/
theorem Unclosed.not_occursAt (h : Unclosed (tagsIn t)) {i j : Nat} (hij : i ≤ j)
    (hopening : OccursAt Tags.object.opening t i) : ¬ OccursAt Tags.object.closing t j := by
  intro hclosing
  rw [occursAt_iff] at hopening hclosing
  have hlt : i < j := by
    refine Nat.lt_of_le_of_ne hij ?_
    rintro rfl
    exact not_opening_and_closing _ ⟨hopening, hclosing⟩
  have hj : j < t.length := by
    have hlength := length_le_of_startsWithTag hclosing
    have hpos := List.length_pos_iff.2 object_closing_ne_nil
    rw [List.length_drop] at hlength
    omega
  -- the opening tag is read in front of position `j`, and the closing one from there on
  have hsplit : t.length = j + (t.length - j) := by omega
  rw [tagsIn, hsplit, tagsRead_add, Nat.zero_add] at h
  have hfront : .opening ∈ tagsRead (fun i => tagAt (t.drop i)) 0 j :=
    mem_tagsRead_iff.2 ⟨i, by omega, by omega, tagAt_eq_opening_iff.2 hopening⟩
  have hback : .closing ∈ tagsRead (fun i => tagAt (t.drop i)) j (t.length - j) :=
    mem_tagsRead_iff.2 ⟨j, by omega, by omega, tagAt_eq_closing_iff.2 hclosing⟩
  have hkind := (List.pairwise_append.1 h).2.2 _ hfront _ hback rfl
  cases hkind

/-- If the closing tags of a text come first, a scan reports no block. -/
theorem not_block_mem_events (h : Unclosed (tagsIn t)) (b : Text) :
    .block b ∉ events .object t := by
  rw [events_eq_map, slices_object, sliceBlocks]
  split
  · simp [Slice.event]
  · simp [Slice.event]
  · rename_i before source after hfind
    obtain ⟨hopening, j, hclosing, -⟩ := firstFrom_of_find_block hfind
    exact absurd hclosing.2.1 (h.not_occursAt hclosing.1 hopening.2.1)

/-! ## Tags of plain text -/

/-- Without opening tags a text has closing ones only. -/
theorem eq_closing_of_mem_tagsIn (h : ∀ i, ¬ OccursAt Tags.object.opening t i) :
    ∀ k ∈ tagsIn t, k = .closing :=
  ReadsTags.eq_closing_of_mem (fun _ => Or.inl rfl) fun i _ _ => h i

/-- Without closing tags a text has opening ones only. -/
theorem eq_opening_of_mem_tagsIn (h : ∀ i, ¬ OccursAt Tags.object.closing t i) :
    ∀ k ∈ tagsIn t, k = .opening :=
  ReadsTags.eq_opening_of_mem (fun _ => Or.inl rfl) fun i _ _ => h i

/-- In front of the first opening tag there are closing ones only. -/
theorem eq_closing_of_mem_tagsIn_front {before rest : Text}
    (h : FirstFrom Tags.object.opening (before ++ rest) 0 before.length) :
    ∀ k ∈ tagsIn before, k = .closing := by
  refine eq_closing_of_mem_tagsIn fun i hoccurs => ?_
  rw [occursAt_iff] at hoccurs
  have hlt : i < before.length := by
    have hlength := length_le_of_startsWithTag hoccurs
    rw [List.length_drop, object_opening, List.length_cons] at hlength
    omega
  refine h.2.2 i (Nat.zero_le i) hlt (occursAt_iff.2 ?_)
  rw [List.drop_append_of_le_length (Nat.le_of_lt hlt)]
  exact startsWithTag_append hoccurs rest

/-- The text of an event outside blocks. -/
def Event.plain? : Event → Option Text
  | .plain span => some span
  | .block _ | .unterminated => none

/-- The spans of plain text. -/
def plainSpans (tags : Tags) (t : Text) : List Text := (events tags t).filterMap Event.plain?

theorem unclosed_tags_sliceBlocks (hclosing : Tags.object.closing ≠ []) (t : Text) :
    Unclosed ((((sliceBlocks .object hclosing t).map Slice.event).filterMap Event.plain?).flatMap
      tagsIn) := by
  fun_induction sliceBlocks .object hclosing t with
  | case1 t h =>
    have htags := eq_closing_of_mem_tagsIn fun i => not_occursAt_of_find_nothing h
    show Unclosed (tagsIn t ++ [])
    exact Unclosed.append List.Pairwise.nil htags
  | case2 t before after h =>
    obtain ⟨hopen, hclose⟩ := firstFrom_of_find_unterminated h
    obtain ⟨opening, rfl, -⟩ := of_find_unterminated h
    -- behind the opening tag no closing one stands
    have hafter : ∀ i, ¬ OccursAt Tags.object.closing after i := by
      intro i hoccurs
      refine hclose ((before ++ opening).length + i) (by simp; omega) (occursAt_drop.1 ?_)
      rwa [← List.append_assoc, List.drop_left]
    have htags : Unclosed (tagsIn after ++ []) := by
      rw [List.append_nil]
      exact unclosed_of_openings (eq_opening_of_mem_tagsIn hafter)
    exact htags.append (eq_closing_of_mem_tagsIn_front hopen)
  | case3 t before source after h ih =>
    obtain ⟨hopen, -⟩ := firstFrom_of_find_block h
    rw [← (of_find_block h).1] at hopen
    exact ih.append (eq_closing_of_mem_tagsIn_front hopen)

/-- Over all plain text the closing tags come first. -/
theorem unclosed_tags_plainSpans (t : Text) :
    Unclosed ((plainSpans .object t).flatMap tagsIn) := by
  rw [plainSpans, events_eq_map, slices_object]
  exact unclosed_tags_sliceBlocks object_closing_ne_nil t

end Markup

open Markup

namespace Reply

/-! ## Plain text -/

/-- The spans that are quoted of a message. -/
def filledSpans (tags : Tags) (t : Text) : List Text := (plainSpans tags t).filter (· ≠ [])

/-- Plain text is its spans, joined like words. -/
theorem plainText_eq_unwords (tags : Tags) (t : Text) :
    plainText tags t = unwords (filledSpans tags t) := by
  unfold plainText filledSpans plainSpans
  induction events tags t using List.reverseRecOn with
  | nil => rfl
  | append_singleton es e ih =>
    rw [List.foldl_concat, ih, List.filterMap_append, List.filter_append]
    cases e with
    | block b =>
      show unwords _ = unwords (_ ++ [])
      rw [List.append_nil]
    | unterminated =>
      show unwords _ = unwords (_ ++ [])
      rw [List.append_nil]
    | plain span =>
      have hone : [Event.plain span].filterMap Event.plain? = [span] := rfl
      rw [hone]
      by_cases hspan : span = []
      · simp [hspan]
      · have hwords : ∀ w ∈ (es.filterMap Event.plain?).filter (· ≠ []), w ≠ [] :=
          fun w hw => by simpa using (List.mem_filter.1 hw).2
        rw [List.filter_cons_of_pos (by simpa using hspan), List.filter_nil,
          unwords_concat hwords]
        simp only [hspan, or_false]
        split
        · rename_i hempty
          rw [hempty, List.nil_append]
        · rfl

/-! ## Quoted lines -/

variable {t : Text}

/-- The lines of a text up to the last one that is not empty, and the empty ones behind it. -/
theorem exists_lines_eq (t : Text) :
    ∃ n, lines t = linesToLastFilled t ++ List.replicate n [] := by
  refine ⟨((lines t).reverse.takeWhile (· = [])).length, ?_⟩
  have hempty : ∀ l ∈ (lines t).reverse.takeWhile (· = []), l = [] := fun l hl => by
    simpa using List.mem_takeWhile_imp hl
  rw [← List.reverse_replicate, ← List.eq_replicate_of_mem hempty, linesToLastFilled,
    ← List.reverse_append, List.takeWhile_append_dropWhile, List.reverse_reverse]

theorem ne_nil_of_mem_getLast?_linesToLastFilled {l : Text}
    (h : l ∈ (linesToLastFilled t).getLast?) : l ≠ [] := by
  rw [linesToLastFilled, List.getLast?_reverse] at h
  simpa using of_mem_head?_dropWhile h

/-- Quoted lines are lines, and the newline of the last one ends the text. -/
theorem lines_flatMap_quoteLine {ls : List Text} (hls : ∀ l ∈ ls, '\n' ∉ l) :
    lines (ls.flatMap quoteLine) = ls.map (quoteMark ++ ·) ++ [[]] := by
  induction ls with
  | nil => rfl
  | cons l ls ih =>
    rw [List.forall_mem_cons] at hls
    have hline : '\n' ∉ quoteMark ++ l := by
      intro hmem
      cases List.mem_append.1 hmem with
      | inl hmark => exact absurd hmark (by decide)
      | inr hl => exact hls.1 hl
    rw [List.flatMap_cons, quoteLine, List.append_assoc, List.singleton_append,
      lines_append_cons, lines_of_not_mem hline, ih hls.2]
    rfl

/-- Quoting keeps the tags of the lines. -/
theorem tagsIn_flatMap_quoteLine (ls : List Text) :
    tagsIn (ls.flatMap quoteLine) = ls.flatMap tagsIn := by
  induction ls with
  | nil => rfl
  | cons l ls ih =>
    have hmark : '<' ∉ quoteMark := by decide
    rw [List.flatMap_cons, quoteLine, List.append_assoc, List.append_assoc,
      tagsIn_append_of_not_mem hmark, List.singleton_append,
      tagsIn_append_blank (by decide : isBlank '\n' = true), ih, List.flatMap_cons]

/-! ## The body of a reply -/

/-- A body is quoted by the lines of its plain text; of a blank one there are none. -/
theorem body_eq (t : Text) :
    body t = (linesToLastFilled (plainText .object (Marker.strip (trim t)))).flatMap quoteLine := by
  rw [body]
  split
  · rename_i hblank
    rw [hblank, plainText_eq_unwords]
    cbv
  · rfl

/-- A quoted body has the tags of the plain text. -/
theorem tagsIn_body (t : Text) :
    tagsIn (body t) = (filledSpans .object (Marker.strip (trim t))).flatMap tagsIn := by
  rw [body_eq, tagsIn_flatMap_quoteLine, plainText_eq_unwords]
  generalize filledSpans .object (Marker.strip (trim t)) = spans
  obtain ⟨n, hlines⟩ := exists_lines_eq (unwords spans)
  have hempty : (List.replicate n ([] : Text)).flatMap tagsIn = [] := by
    simp [List.flatMap_replicate, tagsIn, tagsRead]
  calc (linesToLastFilled (unwords spans)).flatMap tagsIn
      = (lines (unwords spans)).flatMap tagsIn := by
        rw [hlines, List.flatMap_append, hempty, List.append_nil]
    _ = tagsIn (unlines (lines (unwords spans))) :=
        (tagsIn_intercalate (by decide) _).symm
    _ = spans.flatMap tagsIn := by
        rw [unlines_lines]
        exact tagsIn_intercalate (by decide) spans

theorem unclosed_tagsIn_body (t : Text) : Unclosed (tagsIn (body t)) := by
  rw [tagsIn_body]
  have hspans := unclosed_tags_plainSpans (Marker.strip (trim t))
  exact hspans.sublist (List.filter_sublist.flatMap tagsIn)

/-- **Quoted bodies.** The plain text of a message, its spans joined by spaces, is quoted line by
line, up to the last line that is not empty: each line of the reply starts with the quote mark and
ends with a newline, and the last one has something behind the mark. No block is found in the
reply, whatever tags the message held, and a blank message is not quoted. -/
theorem body_quotes_lines_without_blocks (t : Text) :
    (∃ (ls : List Text) (n : Nat),
      lines (unwords (filledSpans .object (Marker.strip (trim t)))) = ls ++ List.replicate n []
        ∧ lines (body t) = ls.map (quoteMark ++ ·) ++ [[]] ∧ ∀ l ∈ ls.getLast?, l ≠ [])
      ∧ (∀ b, .block b ∉ events .object (body t))
      ∧ (isBlankText t = true → body t = []) := by
  refine ⟨?_, fun b => not_block_mem_events (unclosed_tagsIn_body t) b, fun hblank => ?_⟩
  · rw [body_eq, ← plainText_eq_unwords]
    generalize plainText .object (Marker.strip (trim t)) = plain
    obtain ⟨n, hlines⟩ := exists_lines_eq plain
    have hnewline : ∀ l ∈ linesToLastFilled plain, '\n' ∉ l := by
      intro l hl hmem
      have hline : l ∈ lines plain := by
        rw [hlines]
        exact List.mem_append_left _ hl
      exact (of_mem_lines hline hmem).2 rfl
    refine ⟨linesToLastFilled plain, n, hlines, lines_flatMap_quoteLine hnewline, fun l hl => ?_⟩
    exact ne_nil_of_mem_getLast?_linesToLastFilled hl
  · rw [body, if_pos (trim_eq_nil_of_isBlankText hblank)]

/-- Without the marker in it there is an opening tag; it is never closed, and it alone is lost. -/
example : body "a</object>\n$1$b<ob$2$ject c\n\n $3$".toList
    = ">>a</object>\n>>b  c\n>>\n>> \n".toList := by
  cbv

end Reply

end ChatText
