import RCompss.Submission.DecoratedTask

/-! Register markers: which registrations a session takes for done. -/
namespace RCompss.Submission
open RCompss.Library RCompss.Payload

/-- A letter or digit stands for itself, the underscore for any other character. -/
def StandsFor (a b : Char) : Prop := a = if b.isAlphanum then b else '_'

/-- The text spells a function under constraints: its name, and behind an underscore up to 32
characters that stand for those of the constraint signature. -/
inductive Spells (fName : Text) : Constraints → Text → Prop
  | unconstrained : Spells fName [] fName
  | constrained {cs : Constraints} {sig abbreviation : Text} (given : cs ≠ [])
      (signed : constraintSig cs = [sig])
      (stands : List.Forall₂ StandsFor abbreviation (sig.take 32)) :
      Spells fName cs (fName ++ '_' :: abbreviation)

/-- One text spells both. -/
def SpelledAlike (task task' : DecoratedTask) : Prop :=
  ∃ text, Spells task.fName task.constraints text ∧ Spells task'.fName task'.constraints text

theorem standsFor_iff {abbreviation t : Text} :
    List.Forall₂ StandsFor abbreviation t ↔ abbreviation = sanitize t := by
  unfold sanitize
  induction t generalizing abbreviation with
  | nil => simp
  | cons c t ih =>
    constructor
    · rintro (_ | ⟨hc, ht⟩)
      rw [ih.mp ht, hc, List.map_cons]
    · rintro rfl
      exact .cons rfl (ih.mpr rfl)

/-- The marker is the text that spells the task. -/
theorem registerMarker_eq_ok {fName marker : Text} {cs : Constraints} :
    registerMarker fName cs = .ok marker ↔
      ∃ text, Spells fName cs text ∧ marker = "registered_".toList ++ text := by
  unfold registerMarker
  constructor
  · intro h
    split at h
    next hnil =>
      cases h
      exact ⟨fName, hnil ▸ .unconstrained, rfl⟩
    next hcs =>
      split at h
      next sig hsig =>
        cases h
        refine ⟨_, .constrained hcs hsig (standsFor_iff.mpr rfl), ?_⟩
        unfold sanitize
        rw [List.map_take, List.append_assoc]
      next => cases h
  · rintro ⟨text, hspells, rfl⟩
    cases hspells with
    | unconstrained => rfl
    | @constrained _ sig abbreviation hcs hsigned hstands =>
      obtain rfl := standsFor_iff.mp hstands
      rw [if_neg hcs, hsigned]
      unfold sanitize
      simp [Pure.pure, Except.pure]

/-- Two markers are the same exactly when the tasks are spelled alike. -/
theorem marker_eq_iff {task task' : DecoratedTask} {marker marker' : Text}
    (h : registerMarker task.fName task.constraints = .ok marker)
    (h' : registerMarker task'.fName task'.constraints = .ok marker') :
    marker = marker' ↔ SpelledAlike task task' := by
  obtain ⟨text, hspells, rfl⟩ := registerMarker_eq_ok.mp h
  obtain ⟨text', hspells', rfl⟩ := registerMarker_eq_ok.mp h'
  constructor
  · intro heq
    obtain rfl := List.append_cancel_left heq
    exact ⟨text, hspells, hspells'⟩
  · rintro ⟨common, hcommon, hcommon'⟩
    have hmarker := registerMarker_eq_ok.mpr ⟨common, hcommon, rfl⟩
    have hmarker' := registerMarker_eq_ok.mpr ⟨common, hcommon', rfl⟩
    cases h.symm.trans hmarker
    cases h'.symm.trans hmarker'
    rfl

end RCompss.Submission
