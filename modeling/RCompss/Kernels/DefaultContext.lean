import RCompss.Kernels.ManagerOps

/-! `DeleteRunContext` protects the default context while it is the active one, and only then. -/
namespace RCompss.Kernels
open RCompss.Library

/-- There is a default context whenever there is a manager. -/
structure HasDefault (s : Registry) : Prop where
  sound : RegistrySound s
  registered : ∀ m, s.mpInstance = some m → ∃ p, m.mContexts.lookup defaultName = some p

/-- Calls that erase no entry under the default name leave a default context. -/
theorem defaultRules : RegistryRules HasDefault (fun _ _ => True) (· ≠ defaultName) := by
  refine ⟨fun _ h => h.sound, ?_, ?_, ?_, ?_, ?_, ?_⟩
  · intro s h _
    refine ⟨h.sound.started, ?_⟩
    rintro _ ⟨⟩
    exact ⟨s.next, AList.lookup_insert _⟩
  · intro s m name h hm _
    refine ⟨h.sound.created hm name, ?_⟩
    rintro _ ⟨⟩
    obtain ⟨p, hp⟩ := h.registered m hm
    by_cases hname : defaultName = name
    · subst hname
      exact ⟨s.next, AList.lookup_insert _⟩
    · exact ⟨p, (AList.lookup_insert_ne hname).trans hp⟩
  · intro s m name p h hm hp
    refine ⟨h.sound.activated hm hp, ?_⟩
    rintro _ ⟨⟩
    exact h.registered m hm
  · intro s m name p h hm hp hcurrent hname
    refine ⟨h.sound.erased hm hp hcurrent, ?_⟩
    rintro _ ⟨⟩
    obtain ⟨q, hq⟩ := h.registered m hm
    exact ⟨q, (AList.lookup_erase_ne hname.symm).trans hq⟩
  · intro s m h hm _
    refine ⟨h.sound.equipped hm, ?_⟩
    rintro _ ⟨⟩
    exact h.registered m hm
  · intro s m h _
    exact ⟨h.sound.destroyed m, nofun⟩

section
variable {b : Build} {w : World b}

/-- The default context is there, and the calls that rely on it do not fail for lack of it. -/
structure DefaultKept (w : World b) : Prop where
  registered : ∀ m, w.mpInstance = some m → ∃ p, m.mContexts.lookup defaultName = some p
  /-- `SyncMainContext` throws only what `Sync` throws. -/
  syncs : Meets (ManagerOp.run .syncMainContext) w (fun _ _ => True)
    fun e _ => ∃ g, e = .context g
  /-- Deleting the active context does not throw. -/
  deletes : ∀ name m, (ManagerOp.getInstance.step w).mpInstance = some m →
    m.mContexts.lookup name = some m.mpCurrentContext →
      Meets (ManagerOp.run (.deleteRunContext name)) w (fun _ _ => True) fun _ _ => False

/-- Only what `Sync` or another member throws comes out of a call on a live context. -/
theorem onContext_throws {p : Ptr} {r : Bool} (h : w.registry.alive p = some r) (op : ContextOp) :
    Meets (onContext p op) w (fun _ _ => True) fun e _ => ∃ g, e = .context g := by
  rw [onContext, meets_bind]
  refine meets_deref h fun cell hcell => ?_
  rw [meets_bind, meets_get]
  rcases b.call op cell.context w.env with ⟨e | _, context, env⟩
  · exact ⟨e, rfl⟩
  · trivial

theorem getInstance_step : (ManagerOp.getInstance.step w).registry = w.registry.withInstance := by
  have hrun : Meets (ManagerOp.run .getInstance) w
      (fun _ w' => w'.registry = w.registry.withInstance)
      fun _ w' => w'.registry = w.registry.withInstance := by
    rw [ManagerOp.run, meets_bind]
    exact getInstance_registry.returns fun _ _ hw' => hw'
  exact hrun.state (P := fun w' : World b => w'.registry = w.registry.withInstance)

/-- Deleting the active context returns: the default one is protected, and any other makes
way for it. -/
theorem deleteRunContext_active {m : Manager} (h : HasDefault w.registry)
    (hm : w.registry.mpInstance = some m) {name : Text}
    (hname : m.mContexts.lookup name = some m.mpCurrentContext) :
    Meets (ContextManager.deleteRunContext name) w (fun _ _ => True) fun _ _ => False := by
  rw [ContextManager.deleteRunContext, meets_bind, meets_this hm, meets_bind,
    meets_getContext_of_lookup hm hname, if_pos rfl]
  split
  next => trivial
  next hdefault =>
    obtain ⟨q, hq⟩ := h.registered m hm
    rw [meets_bind, meets_getContext_of_lookup hm hq, meets_bind]
    apply (setOperationContext_registry hm q).returns
    intro _ w₁ hw₁
    have hsound : RegistrySound w₁.registry := by
      rw [hw₁]
      exact h.sound.activated hm hq
    have hm₁ : w₁.registry.mpInstance = some { m with mpCurrentContext := q } := by
      rw [hw₁]
      rfl
    exact (eraseContext_registry hsound hm₁ hname).imp fun _ _ _ => trivial

theorem HasDefault.kept (h : HasDefault w.registry) : DefaultKept w := by
  refine ⟨h.registered, ?_, fun name m hm hname => ?_⟩
  · refine meets_getInstance defaultRules h fun w' m hI _ hm => ?_
    obtain ⟨p, hp⟩ := hI.registered m hm
    rw [meets_bind, ContextManager.syncMainContext, meets_bind, meets_this hm, hp]
    exact onContext_throws (hI.sound.registered m hm defaultName p hp) .sync
  · have hstep : (ManagerOp.getInstance.step w).registry.mpInstance = some m := hm
    rw [getInstance_step] at hstep
    refine meets_getInstance defaultRules h fun w' m' hI hw' hm' => ?_
    obtain rfl : m = m' := Option.some.inj (hstep.symm.trans (hw' ▸ hm'))
    rw [meets_bind]
    exact deleteRunContext_active hI hm' hname

/-- `DeleteRunContext` is given the default name only while that context is active. -/
def deletesNoDefault (w : World b) (op : ManagerOp) : Prop :=
  op = .deleteRunContext defaultName →
    ∀ m, w.mpInstance = some m → m.mContexts.lookup defaultName = some m.mpCurrentContext

theorem deletesNoDefault_allows {op : ManagerOp} (h : deletesNoDefault w op) :
    Allows (fun _ _ => True) (· ≠ defaultName) w.registry op := by
  refine ⟨fun _ _ _ _ => trivial, ?_⟩
  rintro name hop m hm hactive rfl
  refine hactive rfl ?_
  rcases Registry.withInstance_cases hm with ⟨-, rfl⟩ | hw
  · exact AList.lookup_insert _
  · exact h hop m hw

/-- In every run that deletes the default context only where it is protected. -/
theorem default_context_kept (env : b.Env) (w : World b)
    (h : Reached ManagerOp.step deletesNoDefault (World.initial env) w) : DefaultKept w :=
  HasDefault.kept <| reached_keeps defaultRules ⟨.initial, nofun⟩
    (fun _ _ _ => deletesNoDefault_allows) h

/-- A step outside of that leaves no default context. -/
theorem not_defaultKept_of_deleted {env : b.Env}
    (h : Reached ManagerOp.step anyStep (World.initial env) w) {op : ManagerOp}
    (hop : ¬deletesNoDefault w op) : ¬DefaultKept (op.step w) := by
  have hsound : RegistrySound w.registry := reached_keeps soundRules .initial
    (fun _ _ _ _ => ⟨fun _ _ _ _ => trivial, fun _ _ _ _ _ => trivial⟩) h
  unfold deletesNoDefault at hop
  push Not at hop
  obtain ⟨rfl, m, hm, hcurrent⟩ := hop
  have hm' : w.registry.mpInstance = some m := hm
  -- whether there was an entry of that name or not, there is none behind the call
  have hrun : Meets (ManagerOp.run (.deleteRunContext defaultName)) w
      (fun _ w' => ∃ m', w'.mpInstance = some m' ∧ m'.mContexts.lookup defaultName = none)
      fun _ w' => ∃ m', w'.mpInstance = some m' ∧ m'.mContexts.lookup defaultName = none := by
    refine meets_getInstance soundRules hsound fun w₁ m₁ hsound₁ hw₁ hm₁ => ?_
    have hsame : w.registry.withInstance = w.registry := by
      rw [Registry.withInstance, hm']
      rfl
    obtain rfl : m = m₁ := Option.some.inj (hm'.symm.trans (hsame ▸ hw₁ ▸ hm₁))
    rw [meets_bind, ContextManager.deleteRunContext, meets_bind, meets_this hm₁, meets_bind,
      meets_getContext hm₁]
    rcases hp : m.mContexts.lookup defaultName with _ | p
    · exact ⟨m, hm₁, hp⟩
    · have hne : m.mpCurrentContext ≠ p := by
        rintro rfl
        exact hcurrent hp
      simp only [if_neg hne]
      apply (eraseContext_registry hsound₁ hm₁ hp).returns
      intro _ w₂ hw₂
      exact ⟨_, congrArg Registry.mpInstance hw₂, AList.lookup_erase _ _⟩
  intro hkept
  obtain ⟨m', hm', hnone⟩ := hrun.state (P := fun w' : World b =>
    ∃ m', w'.mpInstance = some m' ∧ m'.mContexts.lookup defaultName = none)
  obtain ⟨p, hp⟩ := hkept.registered m' hm'
  rw [hnone] at hp
  contradiction

/-- `a` is created, activated and deleted, and the default context, active again, is not
deleted. -/
theorem active_default_kept :
    DefaultKept (b := plainBuild) (steps ManagerOp.step [.createRunContext "a".toList,
      .setOperationContext "a".toList, .deleteRunContext "a".toList,
      .deleteRunContext defaultName] (World.initial ())) := by
  have hother {w : World plainBuild} {op : ManagerOp} (h : op ≠ .deleteRunContext defaultName) :
      deletesNoDefault w op := fun hop => absurd hop h
  refine default_context_kept () _ ?_
  refine .next _ (.next _ (.next _ (.next _ .start (hother nofun)) (hother nofun))
    (hother fun heq => absurd (ManagerOp.deleteRunContext.inj heq) (by decide))) ?_
  rintro - m ⟨⟩
  rfl

/-- With another context active the default one is deleted like any other. -/
theorem default_context_lost : ∃ w : World plainBuild,
    Reached ManagerOp.step anyStep (World.initial ()) w ∧ ¬DefaultKept w ∧
      (exec (ManagerOp.run .syncMainContext) w).1 = .error .outOfRange ∧
        (exec (ManagerOp.run (.deleteRunContext "a".toList)) w).1 =
          .error (.noStream defaultName) := by
  refine ⟨steps ManagerOp.step [.createRunContext "a".toList, .setOperationContext "a".toList,
    .deleteRunContext defaultName] (World.initial ()), Reached.start.steps _, ?_, rfl, rfl⟩
  intro h
  obtain ⟨p, hp⟩ := h.registered _ rfl
  revert hp
  exact nofun

end
end RCompss.Kernels
