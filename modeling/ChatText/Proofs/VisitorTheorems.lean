import ChatText.Proofs.EventTheorems

/-!
# What a visitor sees of a scan

A scan reports to its visitor while it goes on, and the visitor may end it at any event. What the
visitor does in the meantime can be anything, so it is taken here with a state of its own, which is
there after a refusal too. `scan_eq_forM_events` leaves the list of all events to be shown to the
visitor, and `scan_stops_at_refusal` says where that ends and with what.
-/

namespace ChatText
namespace Markup

/-- A scan shows the events of the text to the visitor, one after the other. -/
theorem scan_eq_forM_events {m : Type → Type} [Monad m] [LawfulMonad m] (tags : Tags)
    (visit : Event → m Unit) (t : Text) : scan tags visit t = forM (events tags t) visit := by
  rw [scan_eq_forM, events_eq_map]
  induction slices tags t with
  | nil => rfl
  | cons s ss ih => rw [List.map_cons, List.forM_cons, List.forM_cons, ih]

variable {ε σ : Type}

/-- What comes of an action in a state: a result or an error, and the state that is left. -/
def outcome (action : ExceptT ε (StateM σ) Unit) (s : σ) : Except ε Unit × σ := action.run.run s

/-- What is done next goes on from the state that is left, unless there was an error. -/
theorem outcome_bind (action next : ExceptT ε (StateM σ) Unit) (s : σ) :
    outcome (action >>= fun _ => next) s = match outcome action s with
      | (.ok (), s') => outcome next s'
      | (.error error, s') => (.error error, s') := by
  unfold outcome
  rw [ExceptT.run_bind, StateT.run_bind]
  rcases action.run.run s with ⟨_ | _, s'⟩ <;> rfl

/-- A visitor that has a state and may refuse events. -/
abbrev Visitor (ε σ : Type) := Event → ExceptT ε (StateM σ) Unit

namespace Visitor

variable {visit : Visitor ε σ} {e : Event} {es before after : List Event} {s s₁ s₂ : σ} {error : ε}

/-! ## Events in order -/

theorem outcome_forM_cons_of_ok (h : outcome (visit e) s = (.ok (), s₁)) :
    outcome (forM (e :: es) visit) s = outcome (forM es visit) s₁ := by
  rw [List.forM_cons, outcome_bind, h]

theorem outcome_forM_cons_of_error (h : outcome (visit e) s = (.error error, s₁)) :
    outcome (forM (e :: es) visit) s = (.error error, s₁) := by
  rw [List.forM_cons, outcome_bind, h]

/-- The visitor accepts the events one after the other, and its state goes from the first one to the
second one. -/
inductive Accepts (visit : Visitor ε σ) : List Event → σ → σ → Prop
  | nil (s : σ) : Accepts visit [] s s
  | cons {e : Event} {es : List Event} {s s₁ s₂ : σ} (h : outcome (visit e) s = (.ok (), s₁))
      (hrest : Accepts visit es s₁ s₂) : Accepts visit (e :: es) s s₂

/-- Events that are accepted are passed over. -/
theorem Accepts.outcome_forM_append (h : visit.Accepts before s s₁) (es : List Event) :
    outcome (forM (before ++ es) visit) s = outcome (forM es visit) s₁ := by
  induction h with
  | nil s => rfl
  | cons h _ ih => rw [List.cons_append, outcome_forM_cons_of_ok h, ih]

/-- Where all events are accepted, the end is reached without an error. -/
theorem Accepts.outcome_forM (h : visit.Accepts es s s₁) :
    outcome (forM es visit) s = (.ok (), s₁) := by
  have hall := h.outcome_forM_append []
  rw [List.append_nil] at hall
  exact hall

/-- The first event that is refused is the last one that is shown. -/
theorem Accepts.outcome_forM_of_error (h : visit.Accepts before s s₁)
    (herror : outcome (visit e) s₁ = (.error error, s₂)) (after : List Event) :
    outcome (forM (before ++ e :: after) visit) s = (.error error, s₂) := by
  rw [h.outcome_forM_append, outcome_forM_cons_of_error herror]

/-- The visitor accepts all events, or there is a first one that it refuses. -/
theorem accepts_or_refuses (visit : Visitor ε σ) (es : List Event) (s : σ) :
    (∃ s', visit.Accepts es s s')
      ∨ ∃ before e after s₁ error s₂, es = before ++ e :: after ∧ visit.Accepts before s s₁
        ∧ outcome (visit e) s₁ = (.error error, s₂) := by
  induction es generalizing s with
  | nil => exact Or.inl ⟨s, .nil s⟩
  | cons e es ih =>
    rcases h : outcome (visit e) s with ⟨_ | _, s₁⟩
    · exact Or.inr ⟨[], e, es, s, _, s₁, rfl, .nil s, h⟩
    · rcases ih s₁ with ⟨s₂, hrest⟩ | ⟨before, e', after, s₂, error, s₃, rfl, hbefore, herror⟩
      · exact Or.inl ⟨s₂, .cons h hrest⟩
      · exact Or.inr ⟨e :: before, e', after, s₂, error, s₃, rfl, .cons h hbefore, herror⟩

/-! ## A record of what is seen -/

/-- The visitor with a record of the events that it is shown, in its state. -/
def recorded (visit : Visitor ε σ) : Visitor ε (σ × List Event) := fun e =>
  ExceptT.mk fun (s, seen) =>
    let (result, s') := outcome (visit e) s
    (result, s', seen ++ [e])

theorem outcome_recorded {result : Except ε Unit} (h : outcome (visit e) s = (result, s₁))
    (seen : List Event) :
    outcome (visit.recorded e) (s, seen) = (result, s₁, seen ++ [e]) := by
  have hrecorded : outcome (visit.recorded e) (s, seen)
      = ((outcome (visit e) s).1, (outcome (visit e) s).2, seen ++ [e]) := rfl
  rw [hrecorded, h]

/-- The record makes no difference to what is accepted. -/
theorem Accepts.recorded (h : visit.Accepts es s s₁) (seen : List Event) :
    visit.recorded.Accepts es (s, seen) (s₁, seen ++ es) := by
  induction h generalizing seen with
  | nil s =>
    rw [List.append_nil]
    exact .nil _
  | @cons e es s s₁ s₂ h _ ih =>
    rw [List.append_cons]
    exact .cons (outcome_recorded h seen) (ih (seen ++ [e]))

end Visitor

/-- **A scan stops at the first event that is refused.** It ends without an error exactly if the
visitor accepts all events of the text, in their order. If it does, all of them are seen; if not,
those are seen that it accepts and then the first one that it refuses, and the scan ends with that
error and the state that was left then. -/
theorem scan_stops_at_refusal (tags : Tags) (visit : Visitor ε σ) (t : Text) (s : σ) :
    ((outcome (scan tags visit t) s).1 = .ok () ↔ ∃ s', visit.Accepts (events tags t) s s')
    ∧ ((∃ s', visit.Accepts (events tags t) s s'
          ∧ outcome (scan tags visit t) s = (.ok (), s')
          ∧ outcome (scan tags visit.recorded t) (s, []) = (.ok (), s', events tags t))
      ∨ ∃ before e after s₁ error s₂, events tags t = before ++ e :: after
          ∧ visit.Accepts before s s₁ ∧ outcome (visit e) s₁ = (.error error, s₂)
          ∧ outcome (scan tags visit t) s = (.error error, s₂)
          ∧ outcome (scan tags visit.recorded t) (s, []) = (.error error, s₂, before ++ [e])) := by
  rw [scan_eq_forM_events, scan_eq_forM_events]
  rcases visit.accepts_or_refuses (events tags t) s with
    ⟨s', haccepts⟩ | ⟨before, e, after, s₁, error, s₂, hevents, hbefore, herror⟩
  · have hrun := haccepts.outcome_forM
    exact ⟨⟨fun _ => ⟨s', haccepts⟩, fun _ => by rw [hrun]⟩,
      Or.inl ⟨s', haccepts, hrun, (haccepts.recorded []).outcome_forM⟩⟩
  · have hrun := hbefore.outcome_forM_of_error herror after
    have hrecorded := (hbefore.recorded []).outcome_forM_of_error
      (Visitor.outcome_recorded herror before) after
    rw [← hevents] at hrun hrecorded
    refine ⟨⟨fun hok => ?_, fun ⟨s', haccepts⟩ => ?_⟩,
      Or.inr ⟨before, e, after, s₁, error, s₂, hevents, hbefore, herror, hrun, hrecorded⟩⟩
    · rw [hrun] at hok
      cases hok
    · rw [haccepts.outcome_forM]

end Markup
end ChatText
