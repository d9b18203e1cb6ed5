import ChatText.Marker.Encode
import ChatText.Proofs.MarkerTheorems

/-!
# Glyphs that have become markers

Encoding rewrites a word once per glyph, so all but the first rewriting go over markers that are
there already. The pieces of a word keep the two apart: a symbol is as it was typed, an item is a
glyph with the code whose marker stands for it.

* `stored` is what such pieces look like in the message, `typed` is what they were typed as;
* `markGlyph` turns one more glyph into items, and only typed symbols into them;
* `stored_markGlyph`: on what is stored that is the replacement of a text, if the glyph is
  foreign to markers.
-/

namespace ChatText

/-- No part of a marker can be taken for the glyph: it holds no delimiter, and not only digits. -/
def Marker.Foreign (g : Text) : Prop := delimiter ∉ g ∧ ∃ c ∈ g, c.isDigit = false

instance (g : Text) : Decidable (Marker.Foreign g) :=
  decidable_of_iff (Marker.delimiter ∉ g ∧ g.any (!·.isDigit) = true) <| by
    simp [Marker.Foreign]

theorem Marker.Foreign.ne_nil {g : Text} (hg : Foreign g) : g ≠ [] := by
  obtain ⟨-, c, hc, -⟩ := hg
  exact List.ne_nil_of_mem hc

/-! ## Replacing -/

variable {g : Text} {replacement : Text}

theorem replaceAll_cons_of_not_isPrefix {c : Char} {t : Text} (h : ¬ g <+: c :: t) :
    replaceAll g replacement (c :: t) = c :: replaceAll g replacement t := by
  have hnone : literal g (c :: t) = none := by
    rw [literal, if_neg fun hstart => h (List.isPrefixOf_iff_prefix.1 hstart.2)]
  rw [replaceAll, Piece.scan_cons_of_none hnone]
  rfl

theorem replaceAll_append (hg : g ≠ []) (t : Text) :
    replaceAll g replacement (g ++ t) = replacement ++ replaceAll g replacement t := by
  cases g with
  | nil => exact absurd rfl hg
  | cons c g =>
    have hsome : literal (c :: g) (c :: (g ++ t)) = some ((), (c :: g).length) := by
      rw [literal, if_pos ⟨hg, List.isPrefixOf_iff_prefix.2 (List.prefix_append (c :: g) t)⟩]
    rw [List.cons_append, replaceAll, Piece.scan_cons_of_some hsome, List.length_cons,
      Nat.add_sub_cancel, List.drop_left]
    rfl

/-! ## Markers are passed over -/

/-- A foreign glyph does not start among the digits of a marker. -/
theorem Marker.Foreign.not_prefix_digits (hg : Foreign g) {d : Text}
    (hd : ∀ c ∈ d, c.isDigit = true) (t : Text) : ¬ g <+: d ++ delimiter :: t := by
  intro h
  have hin : g <+: d := by
    rcases prefix_append_cases h with hin | ⟨c, beyond, hbeyond, rfl⟩
    · exact hin
    · -- the glyph reaches the closing delimiter
      obtain rfl := (List.cons_prefix_cons.1 hbeyond).1
      exact absurd (List.mem_append_right d List.mem_cons_self) hg.1
  -- all symbols of the glyph would be digits
  obtain ⟨c, hc, hnot⟩ := hg.2
  rw [hd c (hin.subset hc)] at hnot
  cases hnot

theorem replaceAll_digits_append (hg : Marker.Foreign g) {d : Text}
    (hd : ∀ c ∈ d, c.isDigit = true) (t : Text) :
    replaceAll g replacement (d ++ Marker.delimiter :: t)
      = d ++ Marker.delimiter :: replaceAll g replacement t := by
  induction d with
  | nil => exact replaceAll_cons_of_not_isPrefix (hg.not_prefix_digits hd t)
  | cons c d ih =>
    have hnot : ¬ g <+: c :: (d ++ Marker.delimiter :: t) := hg.not_prefix_digits hd t
    rw [List.cons_append, replaceAll_cons_of_not_isPrefix hnot,
      ih fun x hx => hd x (List.mem_cons_of_mem c hx), List.cons_append]

/-- Replacing a foreign glyph leaves a marker in front as it is. -/
theorem replaceAll_write_append (hg : Marker.Foreign g) (code : UInt32) (t : Text) :
    replaceAll g replacement (Marker.write code ++ t)
      = Marker.write code ++ replaceAll g replacement t := by
  have hopen : ¬ g <+: Marker.delimiter :: (decimal code.toNat ++ Marker.delimiter :: t) :=
    hg.not_prefix_digits (d := []) (by simp) _
  have hwrite : ∀ u, Marker.write code ++ u
      = Marker.delimiter :: (decimal code.toNat ++ Marker.delimiter :: u) := by
    intro u
    simp [Marker.write]
  rw [hwrite, hwrite, replaceAll_cons_of_not_isPrefix hopen,
    replaceAll_digits_append hg (Marker.isDigits_decimal code.toNat).2]

/-! ## Pieces of a word -/

/-- A piece as it is stored: a glyph as the marker of its code. -/
def Piece.stored : Piece UInt32 → Text
  | symbol c => [c]
  | item code _ => Marker.write code

/-- A text as it is typed, before any glyph is marked. -/
def symbols (t : Text) : List (Piece UInt32) := t.map .symbol

/-- What is stored for the pieces. -/
def stored (m : List (Piece UInt32)) : Text := m.flatMap Piece.stored

/-- What the pieces were typed as. -/
def typed (m : List (Piece UInt32)) : Text := m.flatMap Piece.source

@[simp] theorem stored_nil : stored [] = [] := rfl

@[simp] theorem typed_nil : typed [] = [] := rfl

@[simp] theorem stored_cons (p : Piece UInt32) (m : List (Piece UInt32)) :
    stored (p :: m) = p.stored ++ stored m := rfl

@[simp] theorem typed_cons (p : Piece UInt32) (m : List (Piece UInt32)) :
    typed (p :: m) = p.source ++ typed m := rfl

@[simp] theorem stored_append (m m' : List (Piece UInt32)) :
    stored (m ++ m') = stored m ++ stored m' := List.flatMap_append

@[simp] theorem typed_append (m m' : List (Piece UInt32)) :
    typed (m ++ m') = typed m ++ typed m' := List.flatMap_append

@[simp] theorem symbols_nil : symbols [] = [] := rfl

@[simp] theorem symbols_cons (c : Char) (t : Text) :
    symbols (c :: t) = .symbol c :: symbols t := rfl

@[simp] theorem length_symbols (t : Text) : (symbols t).length = t.length := List.length_map _

@[simp] theorem stored_symbols (t : Text) : stored (symbols t) = t := by
  induction t with
  | nil => rfl
  | cons c t ih => rw [symbols_cons, stored_cons, ih]; rfl

@[simp] theorem typed_symbols (t : Text) : typed (symbols t) = t := by
  induction t with
  | nil => rfl
  | cons c t ih => rw [symbols_cons, typed_cons, ih]; rfl

/-- What is stored starts with a text without delimiters only if that text was typed there. -/
theorem symbols_prefix_of_prefix_stored (hg : Marker.delimiter ∉ g)
    {m : List (Piece UInt32)} (h : g <+: stored m) : symbols g <+: m := by
  induction g generalizing m with
  | nil => exact List.nil_prefix
  | cons c g ih =>
    rw [List.mem_cons, not_or] at hg
    cases m with
    | nil => simp at h
    | cons p m =>
      cases p with
      | symbol x =>
        rw [stored_cons, Piece.stored, List.singleton_append, List.cons_prefix_cons] at h
        rw [symbols_cons, h.1]
        exact List.cons_prefix_cons.2 ⟨rfl, ih hg.2 h.2⟩
      | item code s =>
        -- the marker of an item starts with a delimiter
        rw [stored_cons, Piece.stored, Marker.write, List.cons_append,
          List.cons_prefix_cons] at h
        exact absurd h.1.symm hg.1

/-! ## Marking a glyph -/

/-- Turns the typed occurrences of a glyph into items of its code, from the left. -/
def markGlyph (g : Text) (code : UInt32) : List (Piece UInt32) → List (Piece UInt32)
  | [] => []
  | p :: m =>
    if g ≠ [] ∧ symbols g <+: p :: m then
      .item code g :: markGlyph g code (m.drop (g.length - 1))
    else p :: markGlyph g code m
termination_by m => m.length
decreasing_by
  · rw [List.length_cons, List.length_drop]
    omega
  · exact Nat.lt_succ_self _

/-- Where the glyph is found, the pieces behind it are the ones that marking goes on with. -/
theorem eq_append_drop_of_isPrefix {p : Piece UInt32} {m : List (Piece UInt32)} (hg : g ≠ [])
    (h : symbols g <+: p :: m) : p :: m = symbols g ++ m.drop (g.length - 1) := by
  obtain ⟨rest, hrest⟩ := h
  cases g with
  | nil => exact absurd rfl hg
  | cons c g =>
    rw [symbols_cons, List.cons_append, List.cons.injEq] at hrest
    obtain ⟨rfl, rfl⟩ := hrest
    rw [List.length_cons, Nat.add_sub_cancel, List.drop_left' (length_symbols g), symbols_cons,
      List.cons_append]

/-- Marking a foreign glyph is replacing its text in what is stored. -/
theorem stored_markGlyph (hg : Marker.Foreign g) (code : UInt32) (m : List (Piece UInt32)) :
    stored (markGlyph g code m) = replaceAll g (Marker.write code) (stored m) := by
  fun_induction markGlyph g code m with
  | case1 => rfl
  | case2 p m hfound ih =>
    rw [eq_append_drop_of_isPrefix hfound.1 hfound.2, stored_append, stored_symbols,
      replaceAll_append hfound.1, stored_cons, ih]
    rfl
  | case3 p m hfound ih =>
    have hnot : ¬ g <+: stored (p :: m) := fun h =>
      hfound ⟨hg.ne_nil, symbols_prefix_of_prefix_stored hg.1 h⟩
    rw [stored_cons, ih]
    -- the glyph starts nowhere in a marker, so replacing passes over the marker as marking does
    cases p with
    | symbol c => exact (replaceAll_cons_of_not_isPrefix hnot).symm
    | item code' s => exact (replaceAll_write_append hg code' (stored m)).symm

/-- Marking changes nothing of what was typed. -/
theorem typed_markGlyph (g : Text) (code : UInt32) (m : List (Piece UInt32)) :
    typed (markGlyph g code m) = typed m := by
  fun_induction markGlyph g code m with
  | case1 => rfl
  | case2 p m hfound ih =>
    rw [eq_append_drop_of_isPrefix hfound.1 hfound.2, typed_append, typed_symbols, typed_cons, ih]
    rfl
  | case3 p m hfound ih => rw [typed_cons, typed_cons, ih]

/-- A piece of the result is as it was, or an item of the glyph. -/
theorem of_mem_markGlyph {code : UInt32} {m : List (Piece UInt32)} {p : Piece UInt32}
    (h : p ∈ markGlyph g code m) : p ∈ m ∨ p = .item code g := by
  fun_induction markGlyph g code m with
  | case1 => cases h
  | case2 q m hfound ih =>
    rcases List.mem_cons.1 h with rfl | h
    · exact Or.inr rfl
    · exact (ih h).imp_left fun hp => List.mem_cons_of_mem q (List.mem_of_mem_drop hp)
  | case3 q m hfound ih =>
    rcases List.mem_cons.1 h with rfl | h
    · exact Or.inl List.mem_cons_self
    · exact (ih h).imp_left (List.mem_cons_of_mem q)

/-! ## Marking all glyphs -/

/-- Marks each glyph in the given order. -/
def markGlyphs (substitutions : List (Text × UInt32)) (m : List (Piece UInt32)) :
    List (Piece UInt32) :=
  substitutions.foldl (fun m s => markGlyph s.1 s.2 m) m

/-- Marking foreign glyphs is substituting them in what is stored. -/
theorem stored_markGlyphs {substitutions : List (Text × UInt32)}
    (hforeign : ∀ s ∈ substitutions, Marker.Foreign s.1) (m : List (Piece UInt32)) :
    stored (markGlyphs substitutions m) = substituteGlyphs substitutions (stored m) := by
  induction substitutions generalizing m with
  | nil => rfl
  | cons s substitutions ih =>
    rw [List.forall_mem_cons] at hforeign
    rw [markGlyphs, List.foldl_cons, ← markGlyphs, ih hforeign.2,
      stored_markGlyph hforeign.1]
    rfl

@[simp] theorem markGlyphs_nil (substitutions : List (Text × UInt32)) :
    markGlyphs substitutions [] = [] := by
  induction substitutions with
  | nil => rfl
  | cons s substitutions ih => rw [markGlyphs, List.foldl_cons, markGlyph, ← markGlyphs, ih]

theorem typed_markGlyphs (substitutions : List (Text × UInt32)) (m : List (Piece UInt32)) :
    typed (markGlyphs substitutions m) = typed m := by
  induction substitutions generalizing m with
  | nil => rfl
  | cons s substitutions ih =>
    rw [markGlyphs, List.foldl_cons, ← markGlyphs, ih, typed_markGlyph]

/-- An item of the result was there before, or is one of the substitutions. -/
theorem of_item_mem_markGlyphs {substitutions : List (Text × UInt32)} {m : List (Piece UInt32)}
    {code : UInt32} {g : Text} (h : .item code g ∈ markGlyphs substitutions m) :
    .item code g ∈ m ∨ (g, code) ∈ substitutions := by
  induction substitutions generalizing m with
  | nil => exact Or.inl h
  | cons s substitutions ih =>
    rw [markGlyphs, List.foldl_cons, ← markGlyphs] at h
    rcases ih h with hm | hs
    · rcases of_mem_markGlyph hm with hm | hnew
      · exact Or.inl hm
      · rw [Piece.item.injEq] at hnew
        obtain ⟨rfl, rfl⟩ := hnew
        exact Or.inr List.mem_cons_self
    · exact Or.inr (List.mem_cons_of_mem s hs)

end ChatText
