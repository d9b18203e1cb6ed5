import ChatText.Proofs.RewriteTheorems

/-!
# Messages in pieces

What becomes of a message symbol by symbol: `messagePieces` are its pieces, the glyphs that become
markers as items. What is stored for them is the encoded message before it is trimmed
(`stored_messagePieces`), and they were typed as the message (`typed_messagePieces`). Pieces that
stand together with no space or newline among them belong to one word (`exists_word_of_infix`).
-/

namespace ChatText

/-- The pieces of a word: a kept one is left as it was typed, in others all glyphs are marked. -/
def wordPieces (r : Registry) (keep : Text → Bool) (word : Text) : List (Piece UInt32) :=
  if keep word then symbols word else markGlyphs r.substitutions (symbols word)

/-- The pieces of a message. -/
def messagePieces (r : Registry) (keep : Text → Bool) (t : Text) : List (Piece UInt32) :=
  [.symbol '\n'].intercalate ((lines t).map fun line =>
    [.symbol ' '].intercalate ((words line).map (wordPieces r keep)))

variable {r : Registry} {keep : Text → Bool}

theorem stored_wordPieces (hforeign : ∀ g ∈ r.glyphs, Marker.Foreign g) (word : Text) :
    stored (wordPieces r keep word) = encodeWord r.substitutions keep word := by
  rw [encodeWord_eq_stored hforeign, wordPieces]
  split
  · exact stored_symbols word
  · rfl

theorem typed_wordPieces (r : Registry) (keep : Text → Bool) (word : Text) :
    typed (wordPieces r keep word) = word := by
  rw [wordPieces]
  split
  · exact typed_symbols word
  · rw [typed_markGlyphs, typed_symbols]

/-- Where symbols are written as they are, a message is written word by word and line by line. -/
theorem flatMap_messagePieces (r : Registry) (keep : Text → Bool) {f : Piece UInt32 → Text}
    (hf : ∀ c, f (.symbol c) = [c]) (t : Text) :
    (messagePieces r keep t).flatMap f
      = unlines ((lines t).map fun line =>
          unwords ((words line).map fun word => (wordPieces r keep word).flatMap f)) := by
  simp only [messagePieces, flatMap_intercalate, List.flatMap_singleton, hf, List.map_map, unlines,
    unwords, Function.comp_def]

/-- What is stored for the pieces is the encoded message, not trimmed yet. -/
theorem stored_messagePieces (hforeign : ∀ g ∈ r.glyphs, Marker.Foreign g) (keep : Text → Bool)
    (t : Text) : stored (messagePieces r keep t) = encodeLines r keep t := by
  have hword : ∀ word, (wordPieces r keep word).flatMap Piece.stored
      = encodeWord r.substitutions keep word := stored_wordPieces hforeign
  rw [stored, flatMap_messagePieces r keep fun c => rfl]
  simp only [hword, encodeLines]

/-- The pieces were typed as the message. -/
theorem typed_messagePieces (r : Registry) (keep : Text → Bool) (t : Text) :
    typed (messagePieces r keep t) = t := by
  have hword : ∀ word, (wordPieces r keep word).flatMap Piece.source = word :=
    typed_wordPieces r keep
  rw [typed, flatMap_messagePieces r keep fun c => rfl]
  simp only [hword, List.map_id', unwords_words, unlines_lines]

/-! ## Pieces of one word -/

/-- Pieces with no space or newline among them stand in one word. -/
theorem exists_word_of_infix {t : Text} {m : List (Piece UInt32)}
    (h : m <:+: messagePieces r keep t) (hm : m ≠ []) (hspace : .symbol ' ' ∉ m)
    (hnewline : .symbol '\n' ∉ m) :
    ∃ line ∈ lines t, ∃ word ∈ words line, m <:+: wordPieces r keep word := by
  obtain ⟨p, hp, h⟩ := exists_infix_of_infix_intercalate h hm hnewline
  obtain ⟨line, hline, rfl⟩ := List.mem_map.1 hp
  obtain ⟨p, hp, h⟩ := exists_infix_of_infix_intercalate h hm hspace
  obtain ⟨word, hword, rfl⟩ := List.mem_map.1 hp
  exact ⟨line, hline, word, hword, h⟩

/-- An item is a glyph of a word that is not kept. -/
theorem of_item_mem_wordPieces {word : Text} {code : UInt32} {g : Text}
    (h : .item code g ∈ wordPieces r keep word) :
    keep word = false ∧ (g, code) ∈ r.substitutions := by
  have hnot : Piece.item code g ∉ symbols word := by simp [symbols]
  rw [wordPieces] at h
  split at h
  · exact absurd h hnot
  · rename_i hkeep
    exact ⟨by simpa using hkeep, (of_item_mem_markGlyphs h).resolve_left hnot⟩

/-- The items of a message are glyphs that are substituted. -/
theorem of_item_mem_messagePieces {t : Text} {code : UInt32} {g : Text}
    (h : .item code g ∈ messagePieces r keep t) : (g, code) ∈ r.substitutions := by
  obtain ⟨s, u, hsu⟩ := List.append_of_mem h
  have hinfix : [Piece.item code g] <:+: messagePieces r keep t :=
    ⟨s, u, by rw [hsu]; simp⟩
  obtain ⟨line, -, word, -, h⟩ := exists_word_of_infix hinfix (by simp) (by simp) (by simp)
  exact (of_item_mem_wordPieces (h.subset List.mem_cons_self)).2

end ChatText
