import RCompss.Kernels.ManagerOps

/-! Contexts that are gone are not used, and contexts that are not gone are registered. -/
namespace RCompss.Kernels
open RCompss.Library

/-- An address that was given out and is not alive. -/
def Gone (p : Ptr) (s : Registry) : Prop := RegistrySound s ∧ p < s.next ∧ s.alive p = none

/-- What is gone stays gone. -/
theorem goneRules (p : Ptr) : RegistryRules (Gone p) (fun _ _ => True) fun _ => True := by
  have hnext {s : Registry} {r : Bool} (h : Gone p s) :
      p < s.next + 1 ∧ Function.update s.alive s.next (some r) p = none :=
    ⟨h.2.1.trans (Nat.lt_succ_self _), (Function.update_of_ne h.2.1.ne ..).trans h.2.2⟩
  refine ⟨fun _ h => h.1, ?_, ?_, ?_, ?_, ?_, ?_⟩
  · intro s h _
    exact ⟨h.1.started, hnext h⟩
  · intro s m name h hm _
    exact ⟨h.1.created hm name, hnext h⟩
  · intro s m name q h hm hq
    exact ⟨h.1.activated hm hq, h.2⟩
  · intro s m name q h hm hq hcurrent _
    refine ⟨h.1.erased hm hq hcurrent, h.2.1, ?_⟩
    by_cases hp : p = q
    · rw [hp]
      exact Function.update_self ..
    · exact (Function.update_of_ne hp ..).trans h.2.2
  · intro s m h hm _
    exact ⟨h.1.equipped hm, hnext h⟩
  · intro s m h hm
    refine ⟨h.1.destroyed m, h.2.1, ?_⟩
    change (if _ then none else s.alive p) = none
    rw [h.2.2, ite_self]

section
variable {b : Build}

/-- No context is used that is gone. -/
structure NoneDangling (w : World b) : Prop where
  /-- Whatever was used or deleted so far was there. -/
  used : w.misused = false
  pointers : ∀ m, w.mpInstance = some m → ∀ p ∈ m.pointers, w.heap p ≠ none
  current : ∀ m, w.mpInstance = some m → w.heap m.mpCurrentContext ≠ none
  /-- What is gone does not come back, so nothing is deleted twice. -/
  gone : ∀ p < w.next, w.heap p = none → ∀ op : ManagerOp, (op.step w).heap p = none
  operation : Meets ContextManager.getOperationContext w (fun p w' => w'.heap p ≠ none)
    fun _ _ => False

theorem heap_ne_none {w : World b} {p : Ptr} (h : w.registry.alive p ≠ none) : w.heap p ≠ none :=
  fun hp => h (congrArg (Option.map Cell.registry) hp)

theorem allows_all (w : World b) (op : ManagerOp) :
    Allows (fun _ _ => True) (fun _ => True) w.registry op :=
  ⟨fun _ _ _ _ => trivial, fun _ _ _ _ _ => trivial⟩

/-- `GetOperationContext` returns the active context, which is alive. -/
theorem getOperationContext_alive {w : World b} (h : RegistrySound w.registry) :
    Meets ContextManager.getOperationContext w (fun p w' => w'.heap p ≠ none) fun _ _ => False := by
  unfold ContextManager.getOperationContext
  refine meets_getInstance soundRules h fun w' m hI _ hm => ?_
  have halive := hI.current m hm
  rw [meets_bind, meets_this hm]
  split
  next hnull =>
    rw [hnull] at halive
    exact halive hI.null
  next => exact heap_ne_none halive

/-- Over any run of calls by any names, returned or thrown. -/
theorem no_destroyed_context_used (env : b.Env) (w : World b)
    (h : Reached ManagerOp.step anyStep (World.initial env) w) : NoneDangling w := by
  have hsound : RegistrySound w.registry :=
    reached_keeps soundRules .initial (fun w op _ _ => allows_all w op) h
  refine ⟨hsound.used, ?_, ?_, ?_, getOperationContext_alive hsound⟩
  · intro m hm p hp
    exact heap_ne_none (ne_of_eq_of_ne (hsound.pointer_alive hm hp) (Option.some_ne_none _))
  · intro m hm
    exact heap_ne_none (hsound.current m hm)
  · intro p hp hgone op
    have halive : w.registry.alive p = none := congrArg (Option.map Cell.registry) hgone
    have hstep := op.step_keeps (goneRules p) ⟨hsound, hp, halive⟩ (allows_all w op)
    exact Option.map_eq_none_iff.mp hstep.2.2

/-- A context is made, activated, replaced and deleted, where every call of CUDA fails. -/
theorem replaced_not_dangling : NoneDangling (b := cudaBuild)
    (steps ManagerOp.step [.createRunContext "a".toList, .setOperationContext "a".toList,
      .createRunContext "a".toList, .deleteRunContext "a".toList]
      (World.initial (.fresh fun _ _ => true))) :=
  no_destroyed_context_used (b := cudaBuild) _ _ (Reached.start.steps _)

end
end RCompss.Kernels
