import ChatText.Marker.Token
import ChatText.Proofs.LineTheorems
import ChatText.Proofs.MarkerTheorems
import ChatText.Proofs.WordTheorems

/-!
# Tokens and the text they are written in

Two readings of a stored message are tied to its text here: the tokens, each with the symbols it
was written in (`parted_decode`), and the codes alone, which can be read off the parts of
a message that is cut at seams (`emoticonCodes_append`). A blank is a seam, so the codes are those
of the words (`flatMap_emoticonCodes_nonemptyWords`). The price depends on the codes alone.
-/

namespace ChatText

/-- The text is a marker whose digits denote the code; there may be leading zeros. -/
def Marker.Denotes (code : UInt32) (t : Text) : Prop :=
  ∃ d, IsDigits d ∧ decimalValue d = code.toNat ∧ t = enclose d

namespace Token

/-- The token is read from the text: a run from itself, an emoticon from a text that is one for
its code. -/
def ReadFrom (IsFor : UInt32 → Text → Prop) : Token → Text → Prop
  | text run, t => t = run
  | emoticon code, t => IsFor code t

variable {IsFor : UInt32 → Text → Prop}

/-- One more symbol in front of the tokens is one more symbol in front of the text. -/
theorem parted_consSymbol (c : Char) {tokens : List Token} {t : Text}
    (h : Parted (ReadFrom IsFor) tokens t) :
    Parted (ReadFrom IsFor) (consSymbol c tokens) (c :: t) := by
  obtain ⟨texts, htexts, rfl⟩ := h
  cases htexts with
  | nil => exact .single rfl
  | @cons token s tokens texts htoken htokens =>
    cases token with
    | text run =>
      obtain rfl : s = run := htoken
      exact ⟨(c :: s) :: texts, .cons rfl htokens, rfl⟩
    | emoticon code => exact ⟨[c] :: s :: texts, .cons rfl (.cons htoken htokens), rfl⟩

/-- The tokens of pieces are read from the sources of the pieces. -/
theorem parted_ofPieces {pieces : List (Piece UInt32)}
    (h : ∀ code s, Piece.item code s ∈ pieces → IsFor code s) :
    Parted (ReadFrom IsFor) (ofPieces pieces) (pieces.flatMap Piece.source) := by
  induction pieces with
  | nil => exact .nil
  | cons p pieces ih =>
    have hpieces := ih fun code s hs => h code s (List.mem_cons_of_mem p hs)
    cases p with
    | symbol c => exact parted_consSymbol c hpieces
    | item code s => exact .cons (h code s List.mem_cons_self) hpieces

@[simp] theorem filterMap_code?_consSymbol (c : Char) (tokens : List Token) :
    (consSymbol c tokens).filterMap code? = tokens.filterMap code? := by
  cases tokens with
  | nil => rfl
  | cons token tokens => cases token <;> rfl

/-- The codes of the tokens are the values of the items. -/
theorem filterMap_code?_ofPieces (pieces : List (Piece UInt32)) :
    (ofPieces pieces).filterMap code? = pieces.filterMap Piece.value? := by
  induction pieces with
  | nil => rfl
  | cons p pieces ih =>
    cases p with
    | symbol c => simp [ofPieces, ih, List.filterMap_cons, Piece.value?]
    | item code s => simp [ofPieces, ih, code?, Piece.value?]

end Token

/-! ## Tokens -/

variable (r : Registry)

/-- An item of the scan is a marker of a known code. -/
theorem denotes_of_mem_scan_known {isKnown : UInt32 → Bool} {t s : Text} {code : UInt32}
    (h : Piece.item code s ∈ Piece.scan (Marker.known isKnown) t) :
    Marker.Denotes code s ∧ isKnown code = true := by
  -- the item was recognised at the point where it stands
  obtain ⟨before, after, hscan⟩ := List.append_of_mem h
  have hrec := Piece.recognise_of_item (Marker.known_fits isKnown) hscan
  obtain ⟨d, hd, ⟨rest, hstart⟩, hvalue, hknown, hlen⟩ := Marker.known_eq_some_iff.1 hrec
  have hs : Marker.enclose d = s :=
    (List.append_inj hstart (by rw [Marker.length_enclose, hlen])).1
  exact ⟨⟨d, hd, hvalue, hs.symm⟩, hknown⟩

/-- A message is its tokens in order, each in the symbols it was written in. -/
theorem parted_decode (t : Text) : Parted (Token.ReadFrom Marker.Denotes) (decode r t) t := by
  have hparts : Parted (Token.ReadFrom Marker.Denotes) (decode r t)
      ((Piece.scan (Marker.known r.isKnown) t).flatMap Piece.source) :=
    Token.parted_ofPieces fun code s hs => (denotes_of_mem_scan_known hs).1
  rwa [Piece.flatMap_source_scan] at hparts

/-! ## Codes -/

theorem emoticonCodes_eq (t : Text) :
    emoticonCodes r t = (Piece.scan (Marker.known r.isKnown) t).filterMap Piece.value? := by
  rw [emoticonCodes, decode, Token.filterMap_code?_ofPieces]

/-- Only known codes are read. -/
theorem isKnown_of_mem_emoticonCodes {t : Text} {code : UInt32}
    (h : code ∈ emoticonCodes r t) : r.isKnown code = true := by
  rw [emoticonCodes_eq, List.mem_filterMap] at h
  obtain ⟨p, hp, hvalue⟩ := h
  cases p with
  | symbol c => cases hvalue
  | item code' s =>
    cases hvalue
    exact (denotes_of_mem_scan_known hp).2

/-- Where no marker of a known code starts no code is read. -/
theorem emoticonCodes_cons_of_none {c : Char} {t : Text}
    (h : Marker.known r.isKnown (c :: t) = none) :
    emoticonCodes r (c :: t) = emoticonCodes r t := by
  rw [emoticonCodes_eq, emoticonCodes_eq, Piece.scan_cons_of_none h]
  rfl

theorem emoticonCodes_cons_of_ne {c : Char} (h : c ≠ Marker.delimiter) (t : Text) :
    emoticonCodes r (c :: t) = emoticonCodes r t :=
  emoticonCodes_cons_of_none r (Marker.known_cons_of_ne r.isKnown h t)

/-- A text without delimiters holds no codes. -/
theorem emoticonCodes_append_of_not_mem {t : Text} (ht : Marker.delimiter ∉ t) (rest : Text) :
    emoticonCodes r (t ++ rest) = emoticonCodes r rest := by
  induction t with
  | nil => rfl
  | cons c t ih =>
    rw [List.mem_cons, not_or] at ht
    rw [List.cons_append, emoticonCodes_cons_of_ne r (Ne.symm ht.1), ih ht.2]

/-- The codes of a message that is cut at a seam are the codes of its parts. -/
theorem emoticonCodes_append {t rest : Text} (hseam : Marker.Seam t rest) :
    emoticonCodes r (t ++ rest) = emoticonCodes r t ++ emoticonCodes r rest := by
  rw [emoticonCodes_eq, Marker.scan_known_append hseam, List.filterMap_append,
    ← emoticonCodes_eq, ← emoticonCodes_eq]

/-- A separator that belongs to no marker keeps the codes of the parts apart. -/
theorem emoticonCodes_intercalate {c : Char} (hc : ¬ Marker.IsSymbol c) (ts : List Text) :
    emoticonCodes r ([c].intercalate ts) = ts.flatMap (emoticonCodes r) := by
  induction ts with
  | nil => rfl
  | cons t ts ih =>
    by_cases hts : ts = []
    · simp [hts]
    · have hseam : Marker.Seam t (c :: [c].intercalate ts) := by
        refine Or.inr fun x hx => ?_
        rw [List.head?_cons, Option.mem_some_iff] at hx
        exact hx ▸ hc
      rw [List.intercalate_cons_of_ne_nil hts, List.append_assoc, List.singleton_append,
        emoticonCodes_append r hseam, emoticonCodes_cons_of_ne r fun h => hc (Or.inl h), ih,
        List.flatMap_cons]

/-- Blanks of any kind belong to no marker, so they keep the codes of the pieces behind them
apart. -/
theorem emoticonCodes_append_gaps (first : Text) {gaps : List Gap}
    (hgaps : ∀ g ∈ gaps, isBlank g.1 = true) :
    emoticonCodes r (first ++ gaps.flatMap Gap.text)
      = emoticonCodes r first ++ (gaps.map Prod.snd).flatMap (emoticonCodes r) := by
  induction gaps generalizing first with
  | nil => simp
  | cons g gaps ih =>
    rw [List.forall_mem_cons] at hgaps
    have hblank : ¬ Marker.IsSymbol g.1 := by
      intro hsymbol
      have hsolid := hsymbol.not_blank
      rw [hgaps.1] at hsolid
      cases hsolid
    have hseam : Marker.Seam first (g.1 :: (g.2 ++ gaps.flatMap Gap.text)) := by
      refine Or.inr fun c hc => ?_
      rw [List.head?_cons, Option.mem_some_iff] at hc
      exact hc ▸ hblank
    rw [List.flatMap_cons, Gap.text, List.cons_append, emoticonCodes_append r hseam,
      emoticonCodes_cons_of_ne r fun h => hblank (Or.inl h), ih g.2 hgaps.2,
      List.map_cons, List.flatMap_cons]

/-- Codes are read word by word. -/
theorem flatMap_emoticonCodes_nonemptyWords (t : Text) :
    (nonemptyWords t).flatMap (emoticonCodes r) = emoticonCodes r t := by
  obtain ⟨first, gaps, hsplit, htext, -, hgaps⟩ := exists_gaps isBlank t
  rw [flatMap_nonemptyWords rfl, splitAtBlanks, hsplit, List.flatMap_cons,
    ← emoticonCodes_append_gaps r first fun g hg => (hgaps g hg).1, ← htext]

/-- Codes are read line by line. -/
theorem flatMap_emoticonCodes_lines (t : Text) :
    (lines t).flatMap (emoticonCodes r) = emoticonCodes r t := by
  rw [← emoticonCodes_intercalate r (c := '\n') (by decide), ← unlines, unlines_lines]

/-- Newlines are no part of a marker: as spaces they leave the codes as they are. -/
theorem emoticonCodes_spaceNewlines (t : Text) :
    emoticonCodes r (spaceNewlines t) = emoticonCodes r t := by
  rw [spaceNewlines_eq_unwords, unwords, emoticonCodes_intercalate r (by decide),
    flatMap_emoticonCodes_lines]

end ChatText
