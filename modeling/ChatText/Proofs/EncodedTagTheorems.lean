import ChatText.Proofs.FixpointTheorems
import ChatText.Proofs.StandardTheorems
import ChatText.Proofs.TagTheorems

/-!
# Tags that are typed and stored

Tags hold no blanks, no digits and no delimiters, so the tags of a text stay the same when its
blanks become spaces (`tagAt_spaceBlanks`) and when it is trimmed (`tagsIn_trim`), and the markers
in it hold none. What is stored of a message is read in step with what was typed, piece by piece:
`storedTag m i` is the tag that is stored for what was typed from position `i` on, and read at all
positions these are the tags of what is stored (`tagsRead_storedTag`).

A tag is stored only where it was typed (`startsWithTag_typed_of_stored`), and it is lost only to a
glyph that begins in it (`startsWithTag_stored_of_typed`).
-/

namespace ChatText

open Markup

/-! ## Tags of a text -/

/-- The tags of a text, in order. -/
def tagsIn (t : Text) : List TagKind := tagsRead (fun i => tagAt (t.drop i)) 0 t.length

theorem tagsRead_shift (read : Nat → Option TagKind) (k n : Nat) :
    tagsRead read k n = tagsRead (fun i => read (k + i)) 0 n := by
  rw [tagsRead, tagsRead, List.range'_eq_map_range, List.range'_eq_map_range, List.filterMap_map,
    List.filterMap_map]
  simp

theorem tagsIn_cons (c : Char) (t : Text) :
    tagsIn (c :: t) = (tagAt (c :: t)).toList ++ tagsIn t := by
  rw [tagsIn, List.length_cons, Nat.add_comm, tagsRead_add, tagsRead_one, Nat.zero_add,
    tagsRead_shift _ 1]
  simp only [Nat.add_comm 1, List.drop_succ_cons]
  rfl

theorem tagsIn_append_of_not_mem {w : Text} (hw : '<' ∉ w) (t : Text) :
    tagsIn (w ++ t) = tagsIn t := by
  induction w with
  | nil => rfl
  | cons c w ih =>
    rw [List.mem_cons, not_or] at hw
    rw [List.cons_append, tagsIn_cons, tagAt_cons_of_ne (Ne.symm hw.1), ih hw.2]
    rfl

/-! ## Blanks -/

theorem isBlank_toNat {c : Char} (h : isBlank c = true) : c.toNat < 65 ∨ 90 < c.toNat := by
  simp only [isBlank, blankRanges, CodeRanges.has] at h
  grind

/-- Blanks have no case. -/
theorem toLower_of_isBlank {c : Char} (h : isBlank c = true) : c.toLower = c := by
  rcases toLower_cases c with heq | ⟨hge, hle, -⟩
  · exact heq
  · have := isBlank_toNat h
    omega

/-- The symbols of a tag, in lower case, are no blanks. -/
def Solid (tag : Text) : Prop := ∀ a ∈ tag, isBlank a.toLower = false

theorem solid_object : Solid Tags.object.opening ∧ Solid Tags.object.closing := by
  have hopening : (Tags.object.opening.all fun a => !isBlank a.toLower) = true := by decide
  have hclosing : (Tags.object.closing.all fun a => !isBlank a.toLower) = true := by decide
  exact ⟨by simpa [Solid] using hopening, by simpa [Solid] using hclosing⟩

theorem toLower_ne_of_isBlank {a c : Char} (ha : isBlank a.toLower = false)
    (hc : isBlank c = true) : (a.toLower == c.toLower) = false := by
  rw [toLower_of_isBlank hc, beq_eq_false_iff_ne]
  rintro rfl
  rw [ha] at hc
  cases hc

/-- No tag reaches over a blank. -/
theorem startsWithTag_append_blank {tag : Text} (htag : Solid tag) {c : Char}
    (hc : isBlank c = true) (t rest : Text) :
    startsWithTag tag (t ++ c :: rest) = startsWithTag tag t := by
  induction tag generalizing t with
  | nil => cases t <;> rfl
  | cons a tag ih =>
    rw [Solid, List.forall_mem_cons] at htag
    cases t with
    | nil =>
      show (a.toLower == c.toLower && startsWithTag tag rest) = false
      rw [toLower_ne_of_isBlank htag.1 hc, Bool.false_and]
    | cons d t => rw [List.cons_append, startsWithTag, startsWithTag, ih htag.2]

/-- Which blanks a text holds makes no difference to the tag that it starts with. -/
theorem startsWithTag_spaceBlanks {tag : Text} (htag : Solid tag) (t : Text) :
    startsWithTag tag (spaceBlanks t) = startsWithTag tag t := by
  induction tag generalizing t with
  | nil => cases t <;> rfl
  | cons a tag ih =>
    rw [Solid, List.forall_mem_cons] at htag
    cases t with
    | nil => rfl
    | cons c t =>
      have ih : startsWithTag tag (spaceBlanks t) = startsWithTag tag t := ih htag.2 t
      rw [spaceBlanks] at ih ⊢
      rw [List.map_cons, startsWithTag, startsWithTag, ih]
      split
      · rename_i hblank
        rw [toLower_ne_of_isBlank htag.1 hblank.2, toLower_ne_of_isBlank htag.1 (by decide)]
      · rfl

theorem tagAt_append_blank {c : Char} (hc : isBlank c = true) (t rest : Text) :
    tagAt (t ++ c :: rest) = tagAt t := by
  rw [tagAt, tagAt, startsWithTag_append_blank solid_object.1 hc,
    startsWithTag_append_blank solid_object.2 hc]

theorem tagAt_spaceBlanks (t : Text) : tagAt (spaceBlanks t) = tagAt t := by
  rw [tagAt, tagAt, startsWithTag_spaceBlanks solid_object.1,
    startsWithTag_spaceBlanks solid_object.2]

/-- The tags on the two sides of a blank. -/
theorem tagsIn_append_blank {c : Char} (hc : isBlank c = true) (t rest : Text) :
    tagsIn (t ++ c :: rest) = tagsIn t ++ tagsIn rest := by
  have hne : c ≠ '<' := by
    rintro rfl
    exact absurd hc (by decide)
  induction t with
  | nil =>
    rw [List.nil_append, tagsIn_cons, tagAt_cons_of_ne hne]
    rfl
  | cons d t ih =>
    rw [List.cons_append, tagsIn_cons, tagsIn_cons, ih, ← List.cons_append,
      tagAt_append_blank hc, List.append_assoc]

theorem tagsIn_append_blanks {w : Text} (hw : ∀ c ∈ w, isBlank c = true) (t : Text) :
    tagsIn (t ++ w) = tagsIn t := by
  cases w with
  | nil => rw [List.append_nil]
  | cons c w =>
    have hnot : '<' ∉ w := fun hmem =>
      absurd (hw '<' (List.mem_cons_of_mem c hmem)) (by decide)
    have hnone := tagsIn_append_of_not_mem hnot []
    rw [List.append_nil] at hnone
    rw [tagsIn_append_blank (hw c List.mem_cons_self), hnone]
    exact List.append_nil (tagsIn t)

/-- Texts joined by a blank have the tags of each. -/
theorem tagsIn_intercalate {c : Char} (hc : isBlank c = true) (ts : List Text) :
    tagsIn ([c].intercalate ts) = ts.flatMap tagsIn := by
  induction ts with
  | nil => rfl
  | cons t ts ih =>
    by_cases hrest : ts = []
    · rw [hrest, List.intercalate_singleton, List.flatMap_singleton]
    · rw [List.intercalate_cons_of_ne_nil hrest, List.append_assoc, List.singleton_append,
        tagsIn_append_blank hc, ih, List.flatMap_cons]

/-- Trimming leaves all tags. -/
theorem tagsIn_trim (t : Text) : tagsIn (trim t) = tagsIn t := by
  obtain ⟨before, after, htext, hbefore, hafter⟩ := exists_blanks_trim t
  have hnot : '<' ∉ before := fun hmem => absurd (hbefore '<' hmem) (by decide)
  conv_rhs => rw [htext]
  rw [tagsIn_append_blanks hafter, tagsIn_append_of_not_mem hnot]

/-! ## Tags and pieces -/

/-- The pieces from position `i` of what was typed on, if one of them starts there. -/
def piecesFrom : List (Piece UInt32) → Nat → Option (List (Piece UInt32))
  | m, 0 => some m
  | [], _ + 1 => none
  | p :: m, i + 1 =>
    if p.source.length ≤ i + 1 then piecesFrom m (i + 1 - p.source.length) else none

/-- The tag that is stored for what was typed from position `i` on. -/
def storedTag (m : List (Piece UInt32)) (i : Nat) : Option TagKind :=
  (piecesFrom m i).bind fun rest => tagAt (stored rest)

variable {m : List (Piece UInt32)} {p : Piece UInt32} {i : Nat}

theorem piecesFrom_zero (m : List (Piece UInt32)) : piecesFrom m 0 = some m := by
  cases m <;> rfl

/-- Behind the first piece. -/
theorem piecesFrom_add (p : Piece UInt32) (hp : p.source ≠ []) (m : List (Piece UInt32)) (i : Nat) :
    piecesFrom (p :: m) (p.source.length + i) = piecesFrom m i := by
  have hpos : 0 < p.source.length := List.length_pos_iff.2 hp
  obtain ⟨n, hn⟩ := Nat.exists_eq_add_of_lt (show 0 < p.source.length + i by omega)
  rw [hn, Nat.zero_add, piecesFrom, if_pos (by omega)]
  congr 1
  omega

/-- Inside the first piece none starts. -/
theorem piecesFrom_of_lt (hpos : 0 < i) (hlt : i < p.source.length) :
    piecesFrom (p :: m) i = none := by
  obtain ⟨n, rfl⟩ := Nat.exists_eq_add_of_lt hpos
  rw [Nat.zero_add, piecesFrom, if_neg (by omega)]

/-- Every piece was typed as something. -/
def Sourced (m : List (Piece UInt32)) : Prop := ∀ p ∈ m, p.source ≠ []

theorem piecesFrom_append {a : List (Piece UInt32)} (ha : Sourced a) (c : List (Piece UInt32)) :
    piecesFrom (a ++ c) (typed a).length = some c := by
  induction a with
  | nil => exact piecesFrom_zero c
  | cons p a ih =>
    rw [Sourced, List.forall_mem_cons] at ha
    rw [typed_cons, List.length_append, List.cons_append, piecesFrom_add p ha.1, ih ha.2]

theorem exists_of_piecesFrom {c : List (Piece UInt32)} (h : piecesFrom m i = some c) :
    ∃ a, m = a ++ c ∧ (typed a).length = i := by
  fun_induction piecesFrom m i with
  | case1 m => exact ⟨[], Option.some.inj h, rfl⟩
  | case2 i => cases h
  | case3 p m i hle ih =>
    obtain ⟨a, rfl, hlen⟩ := ih h
    refine ⟨p :: a, rfl, ?_⟩
    rw [typed_cons, List.length_append]
    omega
  | case4 p m i hlt => cases h

theorem storedTag_eq_some_iff (hm : Sourced m) {k : TagKind} :
    storedTag m i = some k
      ↔ ∃ a c, m = a ++ c ∧ (typed a).length = i ∧ tagAt (stored c) = some k := by
  rw [storedTag, Option.bind_eq_some_iff]
  constructor
  · rintro ⟨c, hc, hk⟩
    obtain ⟨a, ha, hi⟩ := exists_of_piecesFrom hc
    exact ⟨a, c, ha, hi, hk⟩
  · rintro ⟨a, c, rfl, rfl, hk⟩
    exact ⟨c, piecesFrom_append (fun p hp => hm p (List.mem_append_left c hp)) c, hk⟩

/-! ## Reading the stored tags -/

/-- A marker holds no symbol that a tag starts with. -/
theorem not_mem_write (code : UInt32) : '<' ∉ Marker.write code := fun h =>
  absurd (Marker.isSymbol_of_mem_enclose (Marker.isDigits_decimal code.toNat) h) (by decide)

/-- What is read at the positions of the first piece. -/
theorem tagsRead_storedTag_source (hp : p.source ≠ []) (m : List (Piece UInt32)) :
    tagsRead (storedTag (p :: m)) 0 p.source.length = (tagAt (stored (p :: m))).toList := by
  have hfirst : storedTag (p :: m) 0 = tagAt (stored (p :: m)) := by
    rw [storedTag, piecesFrom_zero, Option.bind_some]
  obtain ⟨n, hn⟩ := Nat.exists_eq_add_of_lt (List.length_pos_iff.2 hp)
  have hlater : tagsRead (storedTag (p :: m)) 1 n = [] := by
    refine List.filterMap_eq_nil_iff.2 fun i hi => ?_
    rw [List.mem_range'_1] at hi
    rw [storedTag, piecesFrom_of_lt (by omega) (by omega), Option.bind_none]
  rw [hn, Nat.zero_add, Nat.add_comm, tagsRead_add, tagsRead_one, hfirst, Nat.zero_add, hlater,
    List.append_nil]

theorem tagsIn_stored_cons (p : Piece UInt32) (m : List (Piece UInt32)) :
    tagsIn (stored (p :: m)) = (tagAt (stored (p :: m))).toList ++ tagsIn (stored m) := by
  cases p with
  | symbol c => exact tagsIn_cons c (stored m)
  | item code g =>
    have hnone : tagAt (stored (.item code g :: m)) = none := by
      refine tagAt_cons_of_ne ?_ _
      decide
    rw [hnone, stored_cons, Piece.stored, tagsIn_append_of_not_mem (not_mem_write code)]
    rfl

/-- The tags that are stored are those read position by position of what was typed. -/
theorem tagsRead_storedTag (hm : Sourced m) :
    tagsRead (storedTag m) 0 (typed m).length = tagsIn (stored m) := by
  induction m with
  | nil => rfl
  | cons p m ih =>
    rw [Sourced, List.forall_mem_cons] at hm
    have hlater : (fun i => storedTag (p :: m) (p.source.length + i)) = storedTag m := by
      funext i
      rw [storedTag, piecesFrom_add p hm.1, storedTag]
    rw [typed_cons, List.length_append, tagsRead_add, tagsRead_storedTag_source hm.1,
      Nat.zero_add, tagsRead_shift, hlater, ih hm.2, tagsIn_stored_cons]

/-! ## Tags that are typed and stored -/

/-- What is stored starts with a tag only if the tag was typed there. -/
theorem startsWithTag_typed_of_stored {tag : Text}
    (htag : ∀ a ∈ tag, a.toLower ≠ Marker.delimiter)
    (h : startsWithTag tag (stored m) = true) : startsWithTag tag (typed m) = true := by
  induction tag generalizing m with
  | nil => cases typed m <;> rfl
  | cons a tag ih =>
    rw [List.forall_mem_cons] at htag
    cases m with
    | nil => cases h
    | cons p m =>
      cases p with
      | symbol c =>
        rw [stored_cons, Piece.stored, List.singleton_append, startsWithTag, Bool.and_eq_true] at h
        rw [typed_cons, Piece.source, List.singleton_append, startsWithTag, h.1, ih htag.2 h.2]
        rfl
      | item code g =>
        rw [stored_cons, Piece.stored, Marker.write, List.cons_append, startsWithTag,
          Bool.and_eq_true, beq_iff_eq] at h
        exact absurd h.1 htag.1

/-- A tag is stored only where it was typed. -/
theorem tagAt_typed_of_stored {k : TagKind} (h : tagAt (stored m) = some k) :
    tagAt (typed m) = some k := by
  have hdelimiter : ∀ {tag : Text}, (tag.all fun a => a.toLower != Marker.delimiter) = true →
      ∀ a ∈ tag, a.toLower ≠ Marker.delimiter := by simp
  cases k with
  | opening =>
    rw [tagAt_eq_opening_iff] at h ⊢
    exact startsWithTag_typed_of_stored (hdelimiter (by decide)) h
  | closing =>
    rw [tagAt_eq_closing_iff] at h ⊢
    exact startsWithTag_typed_of_stored (hdelimiter (by decide)) h

/-- A tag that was typed is stored, unless a glyph in it became a marker. -/
theorem startsWithTag_stored_of_typed {tag : Text} (h : startsWithTag tag (typed m) = true) :
    startsWithTag tag (stored m) = true
      ∨ ∃ x code g rest, m = symbols x ++ .item code g :: rest ∧ x.length < tag.length
        ∧ startsWithTag (tag.drop x.length) (g ++ typed rest) = true := by
  induction tag generalizing m with
  | nil => exact Or.inl (by cases stored m <;> rfl)
  | cons a tag ih =>
    cases m with
    | nil => cases h
    | cons p m =>
      cases p with
      | symbol c =>
        rw [typed_cons, Piece.source, List.singleton_append, startsWithTag, Bool.and_eq_true] at h
        rcases ih h.2 with hstored | ⟨x, code, g, rest, rfl, hlt, hstart⟩
        · refine Or.inl ?_
          rw [stored_cons, Piece.stored, List.singleton_append, startsWithTag, h.1, hstored]
          rfl
        · exact Or.inr ⟨c :: x, code, g, rest, rfl, Nat.succ_lt_succ hlt, hstart⟩
      | item code g => exact Or.inr ⟨[], code, g, m, rfl, Nat.succ_pos _, h⟩

end ChatText
