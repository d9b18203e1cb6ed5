import ChatText.Message.Listing
import ChatText.Proofs.QuotedTheorems
import ChatText.Proofs.WellFormedTheorems

/-!
# Listings can be trusted

The listing of a message tells what is displayed of it, nothing more and nothing less. Each
description stands on one line and starts with the initial of its kind; behind that

* text and markup are quoted, and quoting tells texts apart;
* the code of an emoticon ends at the first symbol that is no digit;
* the address of a link ends at the first space. Two links share an address if one is written with
  its scheme and the other without, but then they do not look the same
  (`Link.eq_of_address_of_visibleText`).

So the descriptions tell well-formed segments apart (`describeSegment_inj`), and all segments that
are displayed are well formed.
-/

namespace ChatText

/-! ## Links -/

namespace Link

/-- What is shown of a link starts as the link does. -/
theorem head?_visibleText (t : Text) : (visibleText t).head? = t.head? := by
  unfold visibleText
  split
  · rfl
  · have hne : t ≠ [] := by
      rintro rfl
      contradiction
    rw [List.append_assoc, List.head?_append_of_ne_nil, List.head?_take, if_neg (by decide)]
    rw [ne_eq, List.take_eq_nil_iff, not_or]
    exact ⟨by decide, hne⟩

/-- A link is known by its address together with what is shown of it. -/
theorem eq_of_address_of_visibleText {s t : Text} (haddress : address s = address t)
    (hvisible : visibleText s = visibleText t) : s = t := by
  have hhead : s.head? = t.head? := by
    rw [← head?_visibleText s, hvisible, head?_visibleText]
  unfold address at haddress
  split at haddress
  · rename_i hs
    split at haddress
    · exact List.append_cancel_left haddress
    · -- one of them starts with the scheme, the other one does not
      obtain ⟨rest, rfl⟩ := List.isPrefixOf_iff_prefix.1 hs
      rw [← haddress] at hhead
      cases hhead
  · split at haddress
    · rename_i ht
      obtain ⟨rest, rfl⟩ := List.isPrefixOf_iff_prefix.1 ht
      rw [haddress] at hhead
      cases hhead
    · exact haddress

example : address "www.a".toList = address "http://www.a".toList := by decide

/-- A symbol that is not in the scheme is in the address of a link only if it is in the link. -/
theorem not_mem_address {c : Char} (hscheme : c ∉ "http://".toList) {t : Text} (ht : c ∉ t) :
    c ∉ address t := by
  unfold address
  split
  · rw [List.mem_append, not_or]
    exact ⟨hscheme, ht⟩
  · exact ht

end Link

/-! ## Descriptions -/

/-- What the description of a segment of this kind starts with. -/
def Segment.initial : Segment → Char
  | text _ => 't'
  | emoticon _ => 'e'
  | link _ => 'l'
  | markup _ => 'm'
  | lineBreak => 'b'

variable {r : Registry} {o o' : DisplayOptions}

@[simp] theorem describeSegment_text (t : Text) :
    describeSegment r (.text t) = "text ".toList ++ quoted t := rfl

@[simp] theorem describeSegment_emoticon (code : UInt32) :
    describeSegment r (.emoticon code) = describeEmoticon r code := rfl

@[simp] theorem describeSegment_link (t : Text) : describeSegment r (.link t)
    = "link ".toList ++ (Link.address t ++ ' ' :: quoted (Link.visibleText t)) := by
  have hshape : describeSegment r (.link t)
      = "link ".toList ++ Link.address t ++ [' '] ++ quoted (Link.visibleText t) := rfl
  rw [hshape, List.append_assoc, List.append_assoc, List.singleton_append]

@[simp] theorem describeSegment_markup (t : Text) :
    describeSegment r (.markup t) = "markup ".toList ++ quoted t := rfl

@[simp] theorem describeSegment_lineBreak :
    describeSegment r .lineBreak = "break".toList := rfl

theorem head?_describeSegment (r : Registry) (s : Segment) :
    (describeSegment r s).head? = some s.initial := by
  cases s with
  | emoticon code =>
    rw [describeSegment_emoticon, describeEmoticon]
    split
    · rfl
    · rfl
  | text t => rfl
  | link t => rfl
  | markup t => rfl
  | lineBreak => rfl

/-- Behind the code of an emoticon its description ends or goes on with a space. -/
theorem exists_describeEmoticon_eq (r : Registry) (code : UInt32) :
    ∃ rest, describeEmoticon r code = "emoticon ".toList ++ (decimal code.toNat ++ rest)
      ∧ ∀ c ∈ rest.head?, c.isDigit = false := by
  unfold describeEmoticon
  split
  · exact ⟨[], by rw [List.append_nil], by simp⟩
  · rename_i e _
    refine ⟨' ' :: (e.imageRef ++ ' ' :: (decimal e.width.toNat ++ 'x' :: decimal e.height.toNat)),
      ?_, ?_⟩
    · simp only [List.append_assoc, List.cons_append, List.nil_append]
    · intro c hc
      cases hc
      decide

theorem isDigit_of_mem_decimal {n : Nat} {c : Char} (hc : c ∈ decimal n) : c.isDigit = true :=
  (Marker.isDigits_decimal n).2 c hc

theorem describeEmoticon_inj {code code' : UInt32}
    (h : describeEmoticon r code = describeEmoticon r code') : code = code' := by
  obtain ⟨rest, hrest, hstop⟩ := exists_describeEmoticon_eq r code
  obtain ⟨rest', hrest', hstop'⟩ := exists_describeEmoticon_eq r code'
  rw [hrest, hrest', List.append_cancel_left_eq] at h
  obtain ⟨hdecimal, -⟩ := append_inj_of_head? (fun c hc => isDigit_of_mem_decimal hc)
    (fun c hc => isDigit_of_mem_decimal hc) hstop hstop' h
  apply UInt32.toNat_inj.1
  rw [← decimalValue_decimal code.toNat, hdecimal, decimalValue_decimal]

/-- The description of a link without spaces tells its address and what is shown of it. -/
theorem describeLink_inj {s t : Text} (hs : ' ' ∉ s) (ht : ' ' ∉ t)
    (h : describeSegment r (.link s) = describeSegment r (.link t)) : s = t := by
  have hsolid : ∀ {t : Text}, ' ' ∉ t → ' ' ∉ Link.address t :=
    fun ht => Link.not_mem_address (by decide) ht
  rw [describeSegment_link, describeSegment_link, List.append_cancel_left_eq] at h
  obtain ⟨haddress, hrest⟩ := append_inj_of_head? (forall_ne_of_not_mem (hsolid hs))
    (forall_ne_of_not_mem (hsolid ht)) (by simp) (by simp) h
  exact Link.eq_of_address_of_visibleText haddress (quoted_inj.1 (List.tail_eq_of_cons_eq hrest))

/-- Descriptions tell well-formed segments apart. -/
theorem describeSegment_inj {s s' : Segment} (hs : s.WellFormed r o) (hs' : s'.WellFormed r o')
    (h : describeSegment r s = describeSegment r s') : s = s' := by
  have hinitial : s.initial = s'.initial := by
    rw [← Option.some.injEq, ← head?_describeSegment r, h, head?_describeSegment]
  cases s with
  | text t =>
    cases s' with
    | text t' =>
      rw [describeSegment_text, describeSegment_text, List.append_cancel_left_eq, quoted_inj] at h
      rw [h]
    | emoticon _ | link _ | markup _ | lineBreak => simp [Segment.initial] at hinitial
  | emoticon code =>
    cases s' with
    | emoticon code' =>
      rw [describeEmoticon_inj h]
    | text _ | link _ | markup _ | lineBreak => simp [Segment.initial] at hinitial
  | link t =>
    cases s' with
    | link t' =>
      rw [describeLink_inj (not_mem_of_isBlank hs.2 (by decide))
        (not_mem_of_isBlank hs'.2 (by decide)) h]
    | text _ | emoticon _ | markup _ | lineBreak => simp [Segment.initial] at hinitial
  | markup t =>
    cases s' with
    | markup t' =>
      rw [describeSegment_markup, describeSegment_markup, List.append_cancel_left_eq,
        quoted_inj] at h
      rw [h]
    | text _ | emoticon _ | link _ | lineBreak => simp [Segment.initial] at hinitial
  | lineBreak =>
    cases s' with
    | lineBreak => rfl
    | text _ | emoticon _ | link _ | markup _ => simp [Segment.initial] at hinitial

/-! ## Newlines -/

theorem newline_not_mem_decimal (n : Nat) : '\n' ∉ decimal n :=
  fun hmem => absurd (isDigit_of_mem_decimal hmem) (by decide)

theorem newline_not_mem_imageRef (e : Emoticon) : '\n' ∉ e.imageRef := by
  unfold Emoticon.imageRef
  rw [List.mem_append, List.mem_append, not_or, not_or]
  exact ⟨⟨by decide, newline_not_mem_decimal _⟩, by decide⟩

theorem newline_not_mem_describeEmoticon (r : Registry) (code : UInt32) :
    '\n' ∉ describeEmoticon r code := by
  have hkind : '\n' ∉ "emoticon ".toList := by
    decide
  unfold describeEmoticon
  split
  · rw [List.mem_append, not_or]
    exact ⟨hkind, newline_not_mem_decimal _⟩
  · rename_i e _
    simp only [List.mem_append, not_or, and_assoc]
    exact ⟨hkind, newline_not_mem_decimal _, by decide, newline_not_mem_imageRef e, by decide,
      newline_not_mem_decimal _, by decide, newline_not_mem_decimal _⟩

/-- The description of a well-formed segment stands on one line. -/
theorem newline_not_mem_describeSegment {s : Segment} (hs : s.WellFormed r o) :
    '\n' ∉ describeSegment r s := by
  cases s with
  | text t =>
    rw [describeSegment_text, List.mem_append, not_or]
    exact ⟨by decide, newline_not_mem_quoted t⟩
  | emoticon code => exact newline_not_mem_describeEmoticon r code
  | link t =>
    have haddress : '\n' ∉ Link.address t :=
      Link.not_mem_address (by decide) (not_mem_of_isBlank hs.2 (by decide))
    rw [describeSegment_link, List.mem_append, List.mem_append, List.mem_cons, not_or, not_or,
      not_or]
    exact ⟨by decide, haddress, by decide, newline_not_mem_quoted _⟩
  | markup t =>
    rw [describeSegment_markup, List.mem_append, not_or]
    exact ⟨by decide, newline_not_mem_quoted t⟩
  | lineBreak =>
    rw [describeSegment_lineBreak]
    decide

/-! ## Listings -/

/-- A function that tells the members of two lists apart tells the lists apart. -/
theorem eq_of_map_eq_map {α β : Type} {f : α → β} {xs ys : List α}
    (hf : ∀ x ∈ xs, ∀ y ∈ ys, f x = f y → x = y) (h : xs.map f = ys.map f) : xs = ys := by
  induction xs generalizing ys with
  | nil =>
    rw [List.map_nil] at h
    exact (List.map_eq_nil_iff.1 h.symm).symm
  | cons x xs ih =>
    cases ys with
    | nil => cases h
    | cons y ys =>
      rw [List.map_cons, List.map_cons, List.cons.injEq] at h
      have hhead : x = y := hf x List.mem_cons_self y List.mem_cons_self h.1
      have htail : xs = ys :=
        ih (fun a ha b hb => hf a (List.mem_cons_of_mem x ha) b (List.mem_cons_of_mem y hb)) h.2
      rw [hhead, htail]

/-- A listing starts with the notice exactly if the message is incomplete: no description of a
segment starts as the notice does. -/
theorem head?_describe_iff (r : Registry) (display : Display) :
    (describe r display).head? = some incompleteNotice ↔ display.incomplete = true := by
  unfold describe
  split
  · rename_i hincomplete
    exact iff_of_true rfl hincomplete
  · rename_i hincomplete
    refine iff_of_false (fun h => ?_) hincomplete
    rw [List.nil_append, List.head?_map, Option.map_eq_some_iff] at h
    obtain ⟨s, -, hs⟩ := h
    have hinitial : some s.initial = some 'i' := by
      rw [← head?_describeSegment r, hs]
      rfl
    cases s <;> simp [Segment.initial] at hinitial

/-- Listings tell displays of well-formed segments apart. -/
theorem describe_inj {display display' : Display}
    (hwell : ∀ s ∈ display.segments, s.WellFormed r o)
    (hwell' : ∀ s ∈ display'.segments, s.WellFormed r o')
    (h : describe r display = describe r display') : display = display' := by
  have hincomplete : display.incomplete = display'.incomplete := by
    rw [Bool.eq_iff_iff, ← head?_describe_iff r, h, head?_describe_iff]
  have hsegments : display.segments = display'.segments := by
    unfold describe at h
    rw [hincomplete, List.append_cancel_left_eq] at h
    exact eq_of_map_eq_map
      (fun s hs s' hs' => describeSegment_inj (hwell s hs) (hwell' s' hs')) h
  cases display
  cases display'
  cases hincomplete
  cases hsegments
  rfl

/-- **Listings are faithful.** No line of a listing holds a newline; there is one line for each
segment, after a notice that leads exactly if the message is incomplete; and two messages have the
same listing, however they are shown, exactly if the same is displayed of them. -/
theorem listing_faithful (r : Registry) (o o' : DisplayOptions) (t t' : Text) :
    (∀ line ∈ listing r o t, '\n' ∉ line)
      ∧ (listing r o t).length = (Display.ofMessage r o t).segments.length
          + (if (Display.ofMessage r o t).incomplete then 1 else 0)
      ∧ ((listing r o t).head? = some incompleteNotice
          ↔ (Display.ofMessage r o t).incomplete = true)
      ∧ (listing r o t = listing r o' t'
        ↔ Display.ofMessage r o t = Display.ofMessage r o' t') := by
  have hwell : ∀ o t, ∀ s ∈ (Display.ofMessage r o t).segments, s.WellFormed r o :=
    fun o t _ hs => wellFormed_segments o r t hs
  refine ⟨fun line hline => ?_, ?_, head?_describe_iff r _,
    fun h => describe_inj (hwell o t) (hwell o' t') h, congrArg (describe r)⟩
  · rw [listing, describe, List.mem_append, List.mem_map] at hline
    rcases hline with hnotice | ⟨s, hs, rfl⟩
    · split at hnotice
      · rw [List.mem_singleton.1 hnotice]
        decide
      · cases hnotice
    · exact newline_not_mem_describeSegment (hwell o t s hs)
  · rw [listing, describe, List.length_append, List.length_map, Nat.add_comm]
    split
    · rfl
    · rfl

end ChatText
