import ChatText.Proofs.EncodeTheorems
import ChatText.Proofs.StripTheorems

/-!
# The literal text of an encoded message

Two scans take a stored message apart: stripping deletes every marker, and decoding finds the
markers of known codes. On a message that was typed without delimiters both find the markers that
encoding wrote, and nothing else (`filterMap_symbol?_scan_any_stored`, `decode_stored`). So
stripping leaves just the text that decoding reads (`strip_encode_eq_literal`).
-/

namespace ChatText

/-- The literal text of a token; an emoticon has none. -/
def Token.literal : Token → Text
  | text run => run
  | emoticon _ => []

theorem Token.flatMap_literal_consSymbol (c : Char) (tokens : List Token) :
    (consSymbol c tokens).flatMap literal = c :: tokens.flatMap literal := by
  cases tokens with
  | nil => rfl
  | cons token tokens => cases token <;> rfl

/-- The literal text of the tokens of pieces is their symbols. -/
theorem Token.flatMap_literal_ofPieces (pieces : List (Piece UInt32)) :
    (ofPieces pieces).flatMap literal = pieces.filterMap Piece.symbol? := by
  induction pieces with
  | nil => rfl
  | cons p pieces ih =>
    cases p with
    | symbol c => rw [ofPieces, flatMap_literal_consSymbol, ih]; rfl
    | item code s => rw [ofPieces, List.flatMap_cons, ih]; rfl

/-- If no delimiter was typed, stripping what is stored keeps the typed symbols. -/
theorem filterMap_symbol?_scan_any_stored {m : List (Piece UInt32)}
    (htyped : ∀ c, .symbol c ∈ m → c ≠ Marker.delimiter) :
    (Piece.scan Marker.any (stored m)).filterMap Piece.symbol? = m.filterMap Piece.symbol? := by
  induction m with
  | nil => rfl
  | cons p m ih =>
    have ih' := ih fun c hc => htyped c (List.mem_cons_of_mem p hc)
    cases p with
    | symbol c =>
      rw [stored_cons, Piece.stored, List.singleton_append,
        Piece.scan_cons_of_none (Marker.any_cons_of_ne (htyped c List.mem_cons_self) _),
        List.filterMap_cons, ih', List.filterMap_cons]
      rfl
    | item code g =>
      rw [stored_cons, Piece.stored, Marker.scan_any_write_append, List.filterMap_cons, ih',
        List.filterMap_cons]
      rfl

/-- A trimmed text loses its markers and nothing else, be it blank or not. -/
theorem Marker.strip_trim (t : Text) :
    strip (trim t) = (Piece.scan any (trim t)).filterMap Piece.symbol? := by
  by_cases hblank : isBlankText (trim t) = true
  · have hempty := trim_eq_nil_of_isBlankText hblank
    rw [trim_trim] at hempty
    rw [hempty]
    rfl
  · exact strip_of_not_blank (by simpa using hblank)

/-- No delimiter comes in with spaces or by trimming. -/
theorem delimiter_not_mem_trim_spaceBlanks {t : Text} (ht : Marker.delimiter ∉ t) :
    Marker.delimiter ∉ trim (spaceBlanks t) := by
  intro hmem
  rcases (of_mem_spaceBlanks (mem_of_mem_trim hmem)).1 with hspace | htyped
  · revert hspace
    decide
  · exact ht htyped

/-- **Stripping and decoding agree.** If the glyphs are foreign to markers and stand for known
codes, stripping the encoded form of a message that was typed without delimiters leaves the literal
text that decoding finds in it. -/
theorem strip_encode_eq_literal {r : Registry} (hforeign : ∀ g ∈ r.glyphs, Marker.Foreign g)
    (hknown : ∀ g ∈ r.glyphs, (r.codeFor? g).all r.isKnown = true)
    (keep : Text → Bool) {t : Text} (ht : Marker.delimiter ∉ t) :
    Marker.strip (encode r keep t) = (decode r (encode r keep t)).flatMap Token.literal := by
  -- `m` is the message as it was typed, with the glyphs that became markers
  obtain ⟨m, hstored, htyped, hm⟩ := encodes_encode hforeign keep t
  have hsymbol : ∀ c, .symbol c ∈ m → c ≠ Marker.delimiter := by
    rintro c hc rfl
    have hmem : Marker.delimiter ∈ typed m :=
      List.mem_flatMap.2 ⟨_, hc, List.mem_singleton_self _⟩
    rw [htyped] at hmem
    exact delimiter_not_mem_trim_spaceBlanks ht hmem
  have hcode : ∀ code g, .item code g ∈ m → r.isKnown code = true := by
    intro code g hg
    obtain ⟨hmem, hfor⟩ := mem_substitutions_iff.1 (hm code g hg).1
    simpa [hfor] using hknown g hmem
  calc Marker.strip (encode r keep t)
      = (Piece.scan Marker.any (encode r keep t)).filterMap Piece.symbol? := by
        rw [encode_eq_trim, Marker.strip_trim]
    _ = m.filterMap Piece.symbol? := by
        rw [← hstored, filterMap_symbol?_scan_any_stored hsymbol]
    _ = (decode r (encode r keep t)).flatMap Token.literal := by
        rw [← hstored, decode_stored hsymbol hcode, Token.flatMap_literal_ofPieces]

/-- Markers next to each other and next to typed digits, and a link that is kept. -/
theorem strip_encode_eq_literal_brackets :
    encode .brackets Link.isWeb " 2)1)7\t(1) www.1)\n".toList = "2$11$$2$7 ($2$ www.1)".toList
      ∧ Marker.strip (encode .brackets Link.isWeb " 2)1)7\t(1) www.1)\n".toList)
        = "27 ( www.1)".toList
      ∧ Marker.strip (encode .brackets Link.isWeb " 2)1)7\t(1) www.1)\n".toList)
        = (decode .brackets (encode .brackets Link.isWeb " 2)1)7\t(1) www.1)\n".toList)).flatMap
            Token.literal := by
  have hencode : encode .brackets Link.isWeb " 2)1)7\t(1) www.1)\n".toList
      = "2$11$$2$7 ($2$ www.1)".toList := by
    rw [encode, substitutions_brackets]
    decide
  refine ⟨hencode, ?_, ?_⟩
  · rw [hencode]
    decide
  · exact strip_encode_eq_literal (by decide) (by decide) Link.isWeb (by decide)

end ChatText
