import ChatText.Markup.Tag

/-!
# Markup blocks in a text

`scan` walks a text and reports what it finds, in order, to a visitor: the plain text between
blocks, whole blocks, and an opening tag that is never closed. The visitor runs in a monad of
its choice and may end the scan there; `events` is the list of all of them.

A block reaches from an opening tag to the end of the first closing tag, which may begin inside
the opening tag. Behind an opening tag that is never closed everything is plain.
-/

namespace ChatText

namespace Markup

/-- What a scan reports. -/
inductive Event where
  /-- Text outside any block; may be empty. -/
  | plain (t : Text)
  /-- A block with both its tags, newlines turned into spaces. -/
  | block (t : Text)
  /-- An opening tag without a closing one. -/
  | unterminated
  deriving DecidableEq, Repr

/-- Why markup is given up in a message. -/
inductive Error where
  | unterminated
  deriving DecidableEq, Repr

/-- The wording of an error. -/
def Error.message : Error → String
  | .unterminated => "markup block is never closed"

/-! ## The first block -/

/-- The first opening tag of a text and what becomes of it. -/
inductive Found where
  | nothing
  | block (before source after : Text)
  | unterminated (before after : Text)
  deriving DecidableEq, Repr

/-- Looks for the first opening tag and, from its own start on, for the closing tag. -/
def find (tags : Tags) (t : Text) : Found :=
  match splitAtTag tags.opening t with
  | none => .nothing
  | some (before, rest) =>
    match splitAtTag tags.closing rest with
    | none => .unterminated before (rest.drop tags.opening.length)
    | some (inside, closed) =>
      .block before (inside ++ closed.take tags.closing.length)
        (closed.drop tags.closing.length)

variable {tags : Tags} {t before source after : Text}

/-- Nothing is found in a text without an opening tag. -/
theorem splitAtTag_of_find_nothing (h : find tags t = .nothing) :
    splitAtTag tags.opening t = none := by
  unfold find at h
  split at h
  · assumption
  · split at h <;> cases h

/-- An opening tag is never closed if behind it there is no closing tag. -/
theorem splitAtTag_of_find_unterminated (h : find tags t = .unterminated before after) :
    ∃ rest, splitAtTag tags.opening t = some (before, rest)
      ∧ splitAtTag tags.closing rest = none ∧ rest.drop tags.opening.length = after := by
  unfold find at h
  split at h
  · cases h
  · rename_i before' rest hopen
    split at h
    · injection h with hbefore hafter
      subst hbefore
      exact ⟨rest, hopen, ‹_›, hafter⟩
    · cases h

/-- A block is found between an opening tag and a closing tag. -/
theorem splitAtTag_of_find_block (h : find tags t = .block before source after) :
    ∃ rest inside closed, splitAtTag tags.opening t = some (before, rest)
      ∧ splitAtTag tags.closing rest = some (inside, closed)
      ∧ inside ++ closed.take tags.closing.length = source
      ∧ closed.drop tags.closing.length = after := by
  unfold find at h
  split at h
  · cases h
  · rename_i before' rest hopen
    split at h
    · cases h
    · rename_i inside closed hclose
      injection h with hbefore hsource hafter
      subst hbefore
      exact ⟨rest, inside, closed, hopen, hclose, hsource, hafter⟩

/-- Behind a block there is less text than before. -/
theorem length_lt_of_find_block (hclosing : tags.closing ≠ [])
    (h : find tags t = .block before source after) : after.length < t.length := by
  obtain ⟨rest, inside, closed, hopen, hclose, -, hafter⟩ := splitAtTag_of_find_block h
  have hpos : 0 < tags.closing.length := List.length_pos_iff.2 hclosing
  have hle := length_le_of_startsWithTag (startsWithTag_of_splitAtTag hclose)
  have hrest := congrArg List.length (append_of_splitAtTag hclose)
  have ht := congrArg List.length (append_of_splitAtTag hopen)
  simp only [List.length_append] at hrest ht
  rw [← hafter, List.length_drop]
  omega

/-! ## The scan -/

variable {m : Type → Type} [Monad m]

/-- The scan with tags of which the closing one is not empty. -/
def scanBlocks (tags : Tags) (hclosing : tags.closing ≠ []) (visit : Event → m Unit)
    (t : Text) : m Unit :=
  match _h : find tags t with
  | .nothing => visit (.plain t)
  | .unterminated before after => do
    visit (.plain before)
    visit .unterminated
    visit (.plain after)
  | .block before source after => do
    visit (.plain before)
    visit (.block (spaceNewlines source))
    scanBlocks tags hclosing visit after
termination_by t.length
decreasing_by exact length_lt_of_find_block hclosing _h

/-- Reports the events of a text to the visitor. With an empty tag all text is plain. -/
def scan (tags : Tags) (visit : Event → m Unit) (t : Text) : m Unit :=
  if h : tags.opening = [] ∨ tags.closing = [] then visit (.plain t)
  else scanBlocks tags (fun hclosing => h (.inr hclosing)) visit t

/-- All events of a text, in order. -/
def events (tags : Tags) (t : Text) : List Event :=
  let collect : StateM (List Event) Unit := scan tags (fun e => modify (e :: ·)) t
  (collect.run []).2.reverse

end Markup

end ChatText
