import ChatText.Proofs.TokenTheorems
import ChatText.Registry.Draft

/-!
# What a stored message is read as

`Registry.Reads` says, token by token, when a list of tokens is what a message says: emoticons are
markers of known codes, runs of text are as long as they can be, and no such marker starts inside a
run. There is just one such list for each message, and decoding finds it (`decode_eq_iff_reads`).

* What is decoded can be read so, because the scan passes over a symbol only where no marker starts
  (`reads_ofPieces`);
* what can be read so is what is decoded, because the scan has no choice
  (`Registry.Reads.decode_eq`);
* a marker that starts in a run sees no more of the emoticon behind it than the first delimiter, so
  the runs stay whole when the emoticons are written anew (`Registry.Reads.written`).
-/

namespace ChatText

variable {r : Registry} {t : Text} {tokens : List Token}

/-! ## Tokens and texts -/

/-- The text starts with a marker of a known code. -/
def Registry.MarkerStarts (r : Registry) (t : Text) : Prop :=
  ∃ code source, Marker.Denotes code source ∧ r.isKnown code = true ∧ source <+: t

/-- The tokens are what the text says. -/
inductive Registry.Reads (r : Registry) : List Token → Text → Prop
  | nil : r.Reads [] []
  /-- A run of text is not empty and has no other run behind it, and no marker of a known code
  starts at any of its symbols, not even one that reaches into what follows. -/
  | text {run t : Text} {tokens : List Token} (hne : run ≠ [])
      (hapart : ∀ run', tokens.head? ≠ some (.text run'))
      (hfree : ∀ v, v <:+ run → v ≠ [] → ¬ r.MarkerStarts (v ++ t)) (h : r.Reads tokens t) :
      r.Reads (.text run :: tokens) (run ++ t)
  /-- An emoticon is a marker whose digits denote its code, and the code is known. -/
  | emoticon {code : UInt32} {source t : Text} {tokens : List Token}
      (hsource : Marker.Denotes code source) (hknown : r.isKnown code = true)
      (h : r.Reads tokens t) : r.Reads (.emoticon code :: tokens) (source ++ t)

/-- How a token is written: an emoticon as the marker of its code. -/
def Token.write : Token → Text
  | text run => run
  | emoticon code => Marker.write code

/-- The text that is written for tokens. -/
def Token.written (tokens : List Token) : Text := tokens.flatMap write

/-- Nothing is recognised in front of a text exactly if no marker of a known code starts it. -/
theorem known_eq_none_iff : Marker.known r.isKnown t = none ↔ ¬ r.MarkerStarts t := by
  rw [← not_iff_not, not_not, ← ne_eq, Option.ne_none_iff_exists']
  constructor
  · rintro ⟨⟨code, n⟩, h⟩
    obtain ⟨d, hd, hstart, hvalue, hknown, -⟩ := Marker.known_eq_some_iff.1 h
    exact ⟨code, Marker.enclose d, ⟨d, hd, hvalue, rfl⟩, hknown, hstart⟩
  · rintro ⟨code, source, ⟨d, hd, hvalue, rfl⟩, hknown, hstart⟩
    exact ⟨_, Marker.known_eq_some_iff.2 ⟨d, hd, hstart, hvalue, hknown, rfl⟩⟩

/-! ## What is decoded can be read so -/

/-- One more symbol in front, where no marker starts, goes into the run behind it or is a new
run. -/
theorem Registry.Reads.consSymbol {c : Char} (hfree : ¬ r.MarkerStarts (c :: t))
    (h : r.Reads tokens t) : r.Reads (Token.consSymbol c tokens) (c :: t) := by
  have hsingle : ∀ v, v <:+ [c] → v ≠ [] → ¬ r.MarkerStarts (v ++ t) := by
    intro v hv hne
    rcases List.suffix_cons_iff.1 hv with rfl | hv
    · exact hfree
    · exact absurd (List.suffix_nil.1 hv) hne
  cases h with
  | nil => exact .text (List.cons_ne_nil c []) (by simp) hsingle .nil
  | @text run t tokens _ hapart hinside h =>
    refine .text (List.cons_ne_nil c run) hapart (fun v hv hne => ?_) h
    rcases List.suffix_cons_iff.1 hv with rfl | hv
    · exact hfree
    · exact hinside v hv hne
  | emoticon hsource hknown h =>
    exact .text (List.cons_ne_nil c []) (by simp) hsingle (.emoticon hsource hknown h)

/-- The pieces of a scan make up tokens that its text can be read as. -/
theorem reads_ofPieces {pieces : List (Piece UInt32)}
    (hscan : Piece.scan (Marker.known r.isKnown) (pieces.flatMap Piece.source) = pieces) :
    r.Reads (Token.ofPieces pieces) (pieces.flatMap Piece.source) := by
  induction pieces with
  | nil => exact .nil
  | cons p pieces ih =>
    have hsplit : Piece.scan (Marker.known r.isKnown) ((p :: pieces).flatMap Piece.source)
        = [p] ++ pieces := hscan
    have hrest := ih (Piece.scan_of_append hsplit)
    cases p with
    | symbol c =>
      have hnone := Piece.recognise_of_symbol (hscan.trans (List.nil_append _).symm)
      exact hrest.consSymbol (known_eq_none_iff.1 hnone)
    | item code source =>
      have hmem : Piece.item code source ∈ Piece.scan (Marker.known r.isKnown)
          ((Piece.item code source :: pieces).flatMap Piece.source) := by
        rw [hscan]
        exact List.mem_cons_self
      obtain ⟨hsource, hknown⟩ := denotes_of_mem_scan_known hmem
      exact .emoticon hsource hknown hrest

theorem reads_decode (r : Registry) (t : Text) : r.Reads (decode r t) t := by
  have hsource := Piece.flatMap_source_scan (Marker.known r.isKnown) t
  have hreads : r.Reads (decode r t)
      ((Piece.scan (Marker.known r.isKnown) t).flatMap Piece.source) :=
    reads_ofPieces (by rw [hsource])
  rwa [hsource] at hreads

/-! ## What can be read so is what is decoded -/

/-- The scan passes over a run in which no marker starts. -/
theorem scan_known_run_append {run : Text}
    (hfree : ∀ v, v <:+ run → v ≠ [] → ¬ r.MarkerStarts (v ++ t)) :
    Piece.scan (Marker.known r.isKnown) (run ++ t)
      = run.map .symbol ++ Piece.scan (Marker.known r.isKnown) t := by
  induction run with
  | nil => rfl
  | cons c run ih =>
    have hnone : Marker.known r.isKnown (c :: (run ++ t)) = none :=
      known_eq_none_iff.2 (hfree (c :: run) (List.suffix_refl _) (List.cons_ne_nil c run))
    rw [List.cons_append, Piece.scan_cons_of_none hnone,
      ih fun v hv => hfree v (hv.trans (List.suffix_cons c run)), List.map_cons, List.cons_append]

/-- Symbols in front of tokens are one run, unless the tokens start with a run themselves. -/
theorem Token.ofPieces_map_symbol_append {run : Text} (hne : run ≠ [])
    {pieces : List (Piece UInt32)}
    (hapart : ∀ run', (ofPieces pieces).head? ≠ some (.text run')) :
    ofPieces (run.map .symbol ++ pieces) = .text run :: ofPieces pieces := by
  induction run with
  | nil => exact absurd rfl hne
  | cons c run ih =>
    rw [List.map_cons, List.cons_append, ofPieces]
    by_cases hrun : run = []
    · rw [hrun, List.map_nil, List.nil_append]
      generalize ofPieces pieces = tokens at hapart
      cases tokens with
      | nil => rfl
      | cons token tokens =>
        cases token with
        | text run' => exact absurd rfl (hapart run')
        | emoticon code => rfl
    · rw [ih hrun]
      rfl

/-- There is only one way to read a text. -/
theorem Registry.Reads.decode_eq (h : r.Reads tokens t) : decode r t = tokens := by
  induction h with
  | nil => rfl
  | @text run t tokens hne hapart hfree h ih =>
    rw [decode] at ih ⊢
    rw [scan_known_run_append hfree, Token.ofPieces_map_symbol_append hne, ih]
    rwa [ih]
  | @emoticon code source t tokens hsource hknown h ih =>
    rw [decode] at ih ⊢
    obtain ⟨d, hd, hvalue, rfl⟩ := hsource
    have hfound : Marker.known r.isKnown (Marker.enclose d ++ t)
        = some (code, (Marker.enclose d).length) :=
      Marker.known_eq_some_iff.2
        ⟨d, hd, List.prefix_append _ _, hvalue, hknown, Marker.length_enclose d⟩
    have hne : Marker.enclose d ≠ [] := List.cons_ne_nil _ _
    rw [Piece.scan_append_of_some hne hfound, Token.ofPieces, ih]

/-! ## Writing the tokens anew -/

/-- A marker that starts before a delimiter ends with it or before it. -/
theorem Marker.enclose_prefix_append_delimiter {d v x : Text} (hd : IsDigits d) (hv : v ≠ [])
    (h : enclose d <+: v ++ delimiter :: x) : enclose d <+: v ++ [delimiter] := by
  rcases prefix_append_cases h with hin | ⟨c, beyond, hbeyond, hmarker⟩
  · exact hin.trans (List.prefix_append v _)
  · obtain rfl := (List.cons_prefix_cons.1 hbeyond).1
    obtain ⟨a, v, rfl⟩ := List.exists_cons_of_ne_nil hv
    rw [enclose, List.cons_append, List.cons.injEq] at hmarker
    -- behind the delimiter there is nothing, for the digits hold none
    rcases List.eq_nil_or_concat beyond with rfl | ⟨beyond, z, rfl⟩
    · have hwhole : enclose d = a :: v ++ [delimiter] := by
        rw [enclose, hmarker.2, List.cons_append, ← hmarker.1]
      exact ⟨[], by rw [List.append_nil, hwhole]⟩
    · have hdigits : d = v ++ delimiter :: beyond := by
        have hend := hmarker.2
        rw [List.concat_eq_append, ← List.cons_append, ← List.append_assoc] at hend
        exact (List.append_inj' hend rfl).1
      have hmem : delimiter ∈ d := by
        rw [hdigits]
        exact List.mem_append_right v List.mem_cons_self
      have hdigit := hd.2 delimiter hmem
      rw [delimiter_not_digit] at hdigit
      cases hdigit

/-- Behind a run it makes no difference to a marker that starts inside the run in which digits the
emoticons that follow are written. -/
theorem Registry.Reads.markerStarts_of_written (h : r.Reads tokens t)
    (hapart : ∀ run, tokens.head? ≠ some (.text run)) {v : Text} (hv : v ≠ [])
    (hstarts : r.MarkerStarts (v ++ Token.written tokens)) : r.MarkerStarts (v ++ t) := by
  cases h with
  | nil => exact hstarts
  | @text run t tokens _ _ _ _ => exact absurd rfl (hapart run)
  | @emoticon code source t tokens hsource _ _ =>
    obtain ⟨d', -, -, rfl⟩ := hsource
    obtain ⟨code', _, ⟨d, hd, hvalue, rfl⟩, hknown, hstart⟩ := hstarts
    have hdelimiter : Marker.enclose d <+: v ++ [Marker.delimiter] :=
      Marker.enclose_prefix_append_delimiter hd hv hstart
    refine ⟨code', _, ⟨d, hd, hvalue, rfl⟩, hknown, hdelimiter.trans ?_⟩
    rw [List.prefix_append_right_inj]
    exact List.cons_prefix_cons.2 ⟨rfl, List.nil_prefix⟩

/-- What tokens are written as can be read as these tokens, if some text can. -/
theorem Registry.Reads.written (h : r.Reads tokens t) : r.Reads tokens (Token.written tokens) := by
  induction h with
  | nil => exact .nil
  | text hne hapart hfree h ih =>
    refine .text hne hapart (fun v hv hne hstarts => ?_) ih
    exact hfree v hv hne (h.markerStarts_of_written hapart hne hstarts)
  | @emoticon code _ _ _ _ hknown _ ih =>
    have hdenotes : Marker.Denotes code (Marker.write code) :=
      ⟨decimal code.toNat, Marker.isDigits_decimal _, decimalValue_decimal _,
        Marker.write_eq_enclose code⟩
    exact .emoticon hdenotes hknown ih

/-- **What a message says.** Decoding finds the one list of tokens that a message can be read as,
and when these tokens are written, each emoticon as the marker of its code, they are found again. -/
theorem decode_eq_iff_reads (r : Registry) (t : Text) :
    (∀ tokens, decode r t = tokens ↔ r.Reads tokens t)
      ∧ decode r (Token.written (decode r t)) = decode r t := by
  constructor
  · intro tokens
    constructor
    · rintro rfl
      exact reads_decode r t
    · exact fun h => h.decode_eq
  · exact (reads_decode r t).written.decode_eq

/-- The second delimiter ends one marker and could open the next; leading zeros are lost. -/
example :
    let r := Registry.ofSteps [.icon 7 16 16 0, .icon 8 16 16 0]
    decode r "$9$007$8$".toList = [.text "$9".toList, .emoticon 7, .text "8$".toList]
      ∧ Token.written (decode r "$9$007$8$".toList) = "$9$7$8$".toList := by
  decide

end ChatText
