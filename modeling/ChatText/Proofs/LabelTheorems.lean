import ChatText.Layout.Label
import ChatText.Proofs.LineTheorems

/-!
# Labels, links and the text they show

`gather` shows every blank of a line as a space, puts spaces between the chunks of a word, and
decides on its own where a label ends. What it keeps is the order of the symbols that are not
blank: each item shows a stretch of the text, links to the letter and labels up to blanks
(`parted_labelsAndLinks`). The invariant speaks of the label in hand and of the stretch that it
shows so far.
-/

namespace ChatText
namespace Layout

/-! ## Chunks and links with the blanks between them -/

/-- The symbols of a chunk or a link. -/
def Unbroken.text : Unbroken → Text
  | chunk t => t
  | link t => t

/-- The text is made of the chunks and links, in order, with blanks in front of some of them. -/
inductive Spaced : List Unbroken → Text → Prop
  | nil : Spaced [] []
  | cons {u : Unbroken} {us : List Unbroken} {t : Text} (gap : Text) :
      (∀ c ∈ gap, isBlank c = true) → Spaced us t → Spaced (u :: us) (gap ++ (u.text ++ t))

namespace Spaced

theorem self (us : List Unbroken) : Spaced us (us.flatMap Unbroken.text) := by
  induction us with
  | nil => exact .nil
  | cons u us ih => exact .cons [] (by simp) ih

theorem append {us us' : List Unbroken} {t t' : Text} (h : Spaced us t) (h' : Spaced us' t') :
    Spaced (us ++ us') (t ++ t') := by
  induction h with
  | nil => exact h'
  | cons gap hgap _ ih =>
    rw [List.append_assoc, List.append_assoc]
    exact .cons gap hgap ih

theorem cons_blank {us : List Unbroken} {t : Text} {c : Char} (h : Spaced us t) (hus : us ≠ [])
    (hc : isBlank c = true) : Spaced us (c :: t) := by
  cases h with
  | nil => exact absurd rfl hus
  | cons gap hgap h => exact .cons (c :: gap) (List.forall_mem_cons.2 ⟨hc, hgap⟩) h

end Spaced

variable (maxWord maxLabel : Nat) (isLink : Text → Bool)

theorem unbrokenOfWord_ne_nil (word : Text) : unbrokenOfWord maxWord isLink word ≠ [] := by
  rw [unbrokenOfWord]
  split
  · exact List.cons_ne_nil _ _
  · simpa [cut] using cutFrom_ne_nil _ _ word

/-- A word that is cut is cut into chunks that make it up. -/
theorem flatMap_text_unbrokenOfWord (word : Text) :
    (unbrokenOfWord maxWord isLink word).flatMap Unbroken.text = word := by
  rw [unbrokenOfWord]
  split
  · simp [Unbroken.text]
  · rw [List.flatMap_map]
    simpa [Unbroken.text] using flatten_cut (max 1 maxWord) word

/-- Words with a blank in front of each. -/
theorem spaced_gaps {gaps : List Gap} (hgaps : ∀ g ∈ gaps, isBlank g.1 = true) :
    Spaced ((gaps.map Prod.snd).flatMap (unbrokenOfWord maxWord isLink))
      (gaps.flatMap Gap.text) := by
  induction gaps with
  | nil => exact .nil
  | cons g gaps ih =>
    rw [List.forall_mem_cons] at hgaps
    have hword := Spaced.self (unbrokenOfWord maxWord isLink g.2)
    rw [flatMap_text_unbrokenOfWord] at hword
    exact (hword.cons_blank (unbrokenOfWord_ne_nil maxWord isLink g.2) hgaps.1).append (ih hgaps.2)

/-! ## What an item shows -/

/-- A link shows the text itself, a label what of it is not blank. -/
def Item.Shows : Item → Text → Prop
  | .label t, s => withoutBlanks t = withoutBlanks s
  | .link t, s => t = s

/-- With a label in hand that shows `s` so far, the items show `s` and the text that follows. -/
theorem parted_gather {us : List Unbroken} {rest : Text} (h : Spaced us rest) {t s : Text}
    (hlabel : withoutBlanks t = withoutBlanks s) (hempty : t = [] → s = []) :
    Parted Item.Shows (gather maxLabel (some t) us) (s ++ rest) := by
  induction h generalizing t s with
  | nil =>
    rw [gather, Option.getD_some, labelItem, List.append_nil]
    split
    · -- an empty label shows nothing, and no item stands for it
      rename_i ht
      rw [hempty ht]
      exact .nil
    · exact .single hlabel
  | @cons u us rest gap hgap _ ih =>
    have hblanks := withoutBlanks_eq_nil hgap
    have hspace : withoutBlanks [' '] = [] := rfl
    -- a label that is finished here takes the blanks in front of the chunk or link
    have hfinished : Item.Shows (.label (t ++ [' '])) (s ++ gap) := by
      rw [Item.Shows, withoutBlanks_append, withoutBlanks_append, hlabel, hblanks, hspace]
    rw [← List.append_assoc]
    cases u with
    | link link =>
      rw [gather]
      exact .cons hfinished (.cons rfl (ih (t := []) (s := []) rfl fun _ => rfl))
    | chunk chunk =>
      rw [gather]
      split
      · exact .cons hfinished (ih rfl id)
      · -- the label goes on, with a space for the blanks or between two chunks of a word
        rw [← List.append_assoc]
        refine ih ?_ fun h => absurd h (by simp)
        rw [withoutBlanks_append, withoutBlanks_append, withoutBlanks_append, hlabel, hblanks,
          withoutBlanks_cons_of_isBlank (by decide), List.append_nil]
        rfl

/-- The labels and links of a text show consecutive parts of it. -/
theorem parted_labelsAndLinks (t : Text) :
    Parted Item.Shows (labelsAndLinks maxWord maxLabel isLink t) t := by
  obtain ⟨first, gaps, hsplit, htext, -, hgaps⟩ := exists_gaps isBlank t
  have hothers := spaced_gaps maxWord isLink fun g hg => (hgaps g hg).1
  have hfirst := flatMap_text_unbrokenOfWord maxWord isLink first
  obtain ⟨u, us, hunits⟩ := List.exists_cons_of_ne_nil (unbrokenOfWord_ne_nil maxWord isLink first)
  rw [hunits, List.flatMap_cons] at hfirst
  have hrest := (Spaced.self us).append hothers
  rw [labelsAndLinks, splitAtBlanks, hsplit, List.flatMap_cons, hunits, List.cons_append, htext,
    ← hfirst, List.append_assoc]
  cases u with
  | link link =>
    rw [gather]
    exact .cons rfl (parted_gather maxLabel hrest rfl fun _ => rfl)
  | chunk chunk =>
    rw [gather]
    exact parted_gather maxLabel hrest rfl id

end Layout
end ChatText
