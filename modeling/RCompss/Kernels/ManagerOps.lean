import RCompss.Kernels.Registry
import RCompss.Library.Runs

/-! Every call of the manager keeps what the rules of the registry keep. -/
namespace RCompss.Kernels
open RCompss.Library

/-- The addresses in a list are alive no more. -/
def Registry.without (s : Registry) (ps : List Ptr) : Registry :=
  { s with alive := fun p => if p ∈ ps then none else s.alive p }

namespace Registry

theorem without_nil (s : Registry) : s.without [] = s := by
  unfold without
  simp only [List.not_mem_nil, if_false]

theorem without_cons (s : Registry) (p : Ptr) (ps : List Ptr) :
    ({ s with alive := Function.update s.alive p none } : Registry).without ps =
      s.without (p :: ps) := by
  have halive : (fun q => if q ∈ ps then none else Function.update s.alive p none q) =
      fun q => if q ∈ p :: ps then none else s.alive q := by
    funext q
    by_cases hq : q = p
    · simp [hq]
    · simp [hq]
  simp only [without, halive]

theorem alive_without {s : Registry} {ps : List Ptr} {p : Ptr} (h : p ∉ ps) :
    (s.without ps).alive p = s.alive p := if_neg h

/-- The last thing to go is the context for GPU work. -/
theorem without_gpu (s : Registry) (m : Manager) :
    ({ s.without m.pointers with
        alive := Function.update (s.without m.pointers).alive m.mpGPUContext none
        mpInstance := none } : Registry) = s.destroyed m := by
  have halive : Function.update (s.without m.pointers).alive m.mpGPUContext none =
      fun p => if p ∈ m.pointers ∨ p = m.mpGPUContext then none else s.alive p := by
    funext p
    by_cases hp : p = m.mpGPUContext
    · simp [hp]
    · simp [hp, without]
  rw [halive]
  rfl

end Registry

section
variable {b : Build} {w : World b}

/-- `SyncAll` reaches contexts that are alive and leaves the registry, returned or thrown. -/
theorem syncAll_registry {m : Manager} (hm : w.registry.mpInstance = some m)
    (halive : ∀ p ∈ m.pointers, w.registry.alive p ≠ none) :
    Meets ContextManager.syncAll w (fun _ w' => w'.registry = w.registry)
      fun _ w' => w'.registry = w.registry := by
  rw [ContextManager.syncAll, meets_bind, meets_this hm]
  have hloop := meets_forM (f := fun p : Ptr => onlyIf (p ≠ nullptr) (onContext (b := b) p .sync))
    (fun ps w' => w'.registry = w.registry ∧ ∀ p ∈ ps, w.registry.alive p ≠ none)
    (E := fun _ w' => w'.registry = w.registry) ?_ m.pointers ⟨rfl, halive⟩
  · exact hloop.imp fun _ _ h => h.1
  · rintro p ps w' ⟨hw', hps⟩
    have hrest : ∀ q ∈ ps, w.registry.alive q ≠ none := fun q hq =>
      hps q (List.mem_cons_of_mem p hq)
    rw [meets_onlyIf]
    split
    next =>
      obtain ⟨r, hr⟩ := Option.ne_none_iff_exists'.mp (hps p List.mem_cons_self)
      rw [← hw'] at hr
      exact (onContext_registry hr .sync).mono (fun _ _ h => ⟨h.trans hw', hrest⟩)
        fun _ _ h => h.trans hw'
    next => exact ⟨hw', hrest⟩

/-- Contexts at different addresses, all alive, are deleted one after the other. -/
theorem deleteContexts_registry (hnull : w.registry.alive nullptr = none) (ps : List Ptr)
    (hps : ps.Nodup) (halive : ∀ p ∈ ps, w.registry.alive p ≠ none) :
    Meets (ps.forM deleteContext) w (fun _ w' => w'.registry = w.registry.without ps)
      fun _ _ => False := by
  induction ps generalizing w with
  | nil => exact w.registry.without_nil.symm
  | cons p ps ih =>
      obtain ⟨hp, hps⟩ := List.nodup_cons.mp hps
      rw [List.forM_eq_forM, List.forM_cons, meets_bind]
      have hdelete := deleteContext_registry (.inr (halive p List.mem_cons_self)) hnull
      apply hdelete.imp
      intro _ w' hw'
      have hother {q : Ptr} (hq : q ≠ p) : w'.registry.alive q = w.registry.alive q := by
        rw [hw']
        exact Function.update_of_ne hq ..
      have hnull' : w'.registry.alive nullptr = none := by
        rw [hother]
        · exact hnull
        · rintro rfl
          exact halive _ List.mem_cons_self hnull
      have halive' : ∀ q ∈ ps, w'.registry.alive q ≠ none := by
        intro q hq
        rw [hother (ne_of_mem_of_not_mem hq hp)]
        exact halive q (List.mem_cons_of_mem p hq)
      apply (ih hnull' hps halive').imp
      intro _ w'' hw''
      rw [hw'', hw']
      exact w.registry.without_cons p ps

theorem RegistrySound.pointer_alive {s : Registry} {m : Manager} (h : RegistrySound s)
    (hm : s.mpInstance = some m) {p : Ptr} (hp : p ∈ m.pointers) : s.alive p = some true := by
  obtain ⟨name, hname⟩ := mem_pointers_iff.mp hp
  exact h.registered m hm name p hname

theorem RegistrySound.gpu_not_mem_pointers {s : Registry} {m : Manager} (h : RegistrySound s)
    (hm : s.mpInstance = some m) : m.mpGPUContext ∉ m.pointers := by
  intro hmem
  have halive := h.pointer_alive hm hmem
  rcases h.gpu m hm with hgpu | hgpu
  · exact h.ne_nullptr halive hgpu
  · rw [halive] at hgpu
    contradiction

/-- `DestroyInstance` deletes every context of the registry, unless `SyncAll` throws before
it deletes any. -/
theorem destroyInstance_of_syncAll {m : Manager} (h : RegistrySound w.registry)
    (hm : w.registry.mpInstance = some m) {E : ManagerError → World b → Prop}
    (hsync : Meets ContextManager.syncAll w (fun _ w' => w'.registry = w.registry) E) :
    Meets ContextManager.destroyInstance w (fun _ w' => w'.registry = w.registry.destroyed m)
      E := by
  have hw : w.mpInstance = some m := hm
  have halive : ∀ p ∈ m.pointers, w.registry.alive p ≠ none := fun p hp =>
    ne_of_eq_of_ne (h.pointer_alive hm hp) (Option.some_ne_none _)
  rw [ContextManager.destroyInstance, meets_bind, meets_get, hw]
  dsimp only
  rw [meets_bind]
  apply hsync.imp
  intro _ w₁ h₁
  rw [meets_bind]
  have hdelete := deleteContexts_registry (w := w₁) (h₁ ▸ h.null) m.pointers (h.nodup_pointers hm)
    (h₁ ▸ halive)
  apply hdelete.returns
  intro _ w₂ h₂
  rw [h₁] at h₂
  have hgpu : m.mpGPUContext = nullptr ∨ w₂.registry.alive m.mpGPUContext ≠ none := by
    refine (h.gpu m hm).imp_right fun hgpu => ?_
    rw [h₂, Registry.alive_without (h.gpu_not_mem_pointers hm), hgpu]
    nofun
  have hnull : w₂.registry.alive nullptr = none := by
    rw [h₂, Registry.alive_without]
    · exact h.null
    · exact fun hp => h.ne_nullptr (h.pointer_alive hm hp) rfl
  rw [meets_bind]
  apply (deleteContext_registry hgpu hnull).returns
  intro _ w₃ h₃
  rw [meets_modify]
  have hfinal : ({ w₃ with mpInstance := none } : World b).registry =
      { w₃.registry with mpInstance := none } := rfl
  rw [hfinal, h₃, h₂]
  exact w.registry.without_gpu m

theorem destroyInstance_registry {m : Manager} (h : RegistrySound w.registry)
    (hm : w.registry.mpInstance = some m) :
    Meets ContextManager.destroyInstance w (fun _ w' => w'.registry = w.registry.destroyed m)
      fun _ w' => w'.registry = w.registry :=
  destroyInstance_of_syncAll h hm <| syncAll_registry hm fun _ hp =>
    ne_of_eq_of_ne (h.pointer_alive hm hp) (Option.some_ne_none _)

theorem setOperationContext_registry {m : Manager} (hm : w.registry.mpInstance = some m)
    (p : Ptr) :
    Meets (ContextManager.setOperationContext p) w
      (fun _ w' => w'.registry = w.registry.activated m p) fun _ _ => False := by
  rw [ContextManager.setOperationContext, modifyInstance, meets_modify]
  exact registry_modifyInstance hm _

/-- A new context under a name, by a manager that is made if there is none. -/
theorem createRunContext_registry {m : Manager} (hm : w.registry.withInstance.mpInstance = some m)
    (name : Text) :
    Meets (ContextManager.createRunContext name) w
      (fun _ w' => w'.registry = w.registry.withInstance.created m name) fun _ _ => False := by
  rw [ContextManager.createRunContext, meets_bind]
  apply getInstance_registry.returns
  intro _ w₁ hw₁
  rw [← hw₁] at hm
  rw [meets_bind]
  refine (newContext_registry .CPU .SYNC true).mono (fun p w₂ hw₂ => ?_)
    fun _ _ he => he.1 rfl
  obtain ⟨rfl, hw₂⟩ := hw₂
  have hm₂ : w₂.registry.mpInstance = some m := by
    rw [hw₂]
    exact hm
  rw [meets_bind, modifyInstance, meets_modify, meets_pure, registry_modifyInstance hm₂, hw₂, hw₁]
  rfl

/-- An entry that is not the active one is erased with its context. -/
theorem eraseContext_registry {m : Manager} {name : Text} {p : Ptr} (h : RegistrySound w.registry)
    (hm : w.registry.mpInstance = some m) (hp : m.mContexts.lookup name = some p) :
    Meets (ContextManager.eraseContext name) w
      (fun _ w' => w'.registry = w.registry.erased m name p) fun _ _ => False := by
  have halive := h.registered m hm name p hp
  have hne : p ≠ nullptr := h.ne_nullptr halive
  rw [ContextManager.eraseContext, meets_bind, meets_getContext_of_lookup hm hp, meets_bind,
    meets_onlyIf, if_neg hne, meets_bind, modifyInstance, meets_modify]
  have hw' := registry_modifyInstance hm fun m => { m with mContexts := m.mContexts.erase name }
  refine (deleteContext_registry (p := p) ?_ ?_).imp fun _ w'' h'' => ?_
  · rw [hw']
    exact .inr (ne_of_eq_of_ne halive (Option.some_ne_none _))
  · rw [hw']
    exact h.null
  · rw [h'', hw']
    rfl

/-- A call on the context of a name leaves the registry, the name registered or not. -/
theorem onNamed_registry {m : Manager} (h : RegistrySound w.registry)
    (hm : w.registry.mpInstance = some m) (name : Text) (op : ContextOp) :
    Meets (ContextManager.getContext name >>= fun p => onContext p op) w
      (fun _ w' => w'.registry = w.registry) fun _ w' => w'.registry = w.registry := by
  rw [meets_bind, meets_getContext hm]
  rcases hp : m.mContexts.lookup name with _ | p
  · rfl
  · exact onContext_registry (h.registered m hm name p hp) op

end

section
variable {I : Registry → Prop} {mayInsert : Manager → Text → Prop} {mayErase : Text → Prop}
variable {b : Build} {w : World b} {α : Type}

theorem RegistryRules.withInstance (rules : RegistryRules I mayInsert mayErase) {s : Registry}
    (h : I s) : I s.withInstance ∧ ∃ m, s.withInstance.mpInstance = some m := by
  unfold Registry.withInstance
  rcases hm : s.mpInstance with _ | m
  · exact ⟨rules.start s h hm, _, rfl⟩
  · exact ⟨h, m, hm⟩

/-- What follows `GetInstance` has a manager. -/
theorem meets_getInstance (rules : RegistryRules I mayInsert mayErase) (h : I w.registry)
    {x : ManagerM b α} {Q : α → World b → Prop} {E : ManagerError → World b → Prop}
    (hx : ∀ w' m, I w'.registry → w'.registry = w.registry.withInstance →
      w'.registry.mpInstance = some m → Meets x w' Q E) :
    Meets (ContextManager.getInstance >>= fun _ => x) w Q E := by
  rw [meets_bind]
  apply getInstance_registry.returns
  intro _ w' hw'
  obtain ⟨hI, m, hm⟩ := rules.withInstance h
  rw [← hw'] at hI hm
  exact hx w' m hI hw' hm

/-- The call keeps `I` of the registry, returned or thrown. -/
abbrev KeepsRegistry (I : Registry → Prop) (x : ManagerM b α) (w : World b) : Prop :=
  Meets x w (fun _ w' => I w'.registry) fun _ w' => I w'.registry

theorem keeps_of_eq {x : ManagerM b α} (h : I w.registry)
    (hx : Meets x w (fun _ w' => w'.registry = w.registry) fun _ w' => w'.registry = w.registry) :
    KeepsRegistry I x w :=
  hx.mono (fun _ _ hw' => hw' ▸ h) fun _ _ hw' => hw' ▸ h

/-- A call on the context of a name keeps the registry, the name registered or not. -/
theorem getContext_keeps (rules : RegistryRules I mayInsert mayErase) {m : Manager}
    (h : I w.registry) (hm : w.registry.mpInstance = some m) (name : Text)
    {f : Ptr → ManagerM b α}
    (hf : ∀ p, m.mContexts.lookup name = some p → w.registry.alive p = some true →
      KeepsRegistry I (f p) w) :
    KeepsRegistry I (ContextManager.getContext name >>= f) w := by
  unfold KeepsRegistry
  rw [meets_bind, meets_getContext hm]
  rcases hp : m.mContexts.lookup name with _ | p
  · exact h
  · exact hf p hp ((rules.sound _ h).registered m hm name p hp)

theorem getGPUContext_keeps (rules : RegistryRules I mayInsert mayErase) (h : I w.registry) :
    KeepsRegistry I ContextManager.getGPUContext w := by
  unfold KeepsRegistry ContextManager.getGPUContext
  split
  · refine meets_getInstance rules h fun w₁ m hI _ hm => ?_
    rw [meets_bind, meets_this hm]
    split
    next hnull =>
      rw [meets_bind]
      refine (newContext_registry .GPU .SYNC false).mono (fun p w₂ hw₂ => ?_)
        fun _ w₂ hw₂ => ?_
      · obtain ⟨rfl, hw₂⟩ := hw₂
        have hm₂ : w₂.registry.mpInstance = some m := by rw [hw₂]; exact hm
        rw [meets_bind, modifyInstance, meets_modify, meets_pure, registry_modifyInstance hm₂, hw₂]
        exact rules.equip _ m hI hm hnull
      · rw [hw₂.2]
        exact hI
    next => exact hI
  · exact h

theorem createRunContext_keeps (rules : RegistryRules I mayInsert mayErase) (h : I w.registry)
    (name : Text)
    (hname : ∀ m, w.registry.withInstance.mpInstance = some m → mayInsert m name) :
    KeepsRegistry I (ContextManager.createRunContext name) w := by
  obtain ⟨hI, m, hm⟩ := rules.withInstance h
  apply (createRunContext_registry hm name).returns
  intro _ w' hw'
  rw [hw']
  exact rules.create _ m name hI hm (hname m hm)

theorem deleteRunContext_keeps (rules : RegistryRules I mayInsert mayErase) {m : Manager}
    (h : I w.registry) (hm : w.registry.mpInstance = some m) (name : Text)
    (hname : (name = defaultName → m.mContexts.lookup name ≠ some m.mpCurrentContext) →
      mayErase name) :
    KeepsRegistry I (ContextManager.deleteRunContext name) w := by
  unfold KeepsRegistry ContextManager.deleteRunContext
  rw [meets_bind, meets_this hm]
  refine getContext_keeps rules h hm name fun p hp halive => ?_
  unfold KeepsRegistry
  split
  next hcurrent =>
    split
    next => exact h
    next hdefault =>
      refine getContext_keeps rules h hm defaultName fun q hq _ => ?_
      unfold KeepsRegistry
      rw [meets_bind]
      apply (setOperationContext_registry hm q).returns
      intro _ w₁ hw₁
      -- the default context is another one, which is active from here on
      have hqp : q ≠ p := by
        rintro rfl
        exact hdefault ((rules.sound _ h).distinct m hm name defaultName q hp hq)
      have hI : I w₁.registry := by
        rw [hw₁]
        exact rules.activate _ m defaultName q h hm hq
      have hm₁ : w₁.registry.mpInstance = some { m with mpCurrentContext := q } := by
        rw [hw₁]
        rfl
      apply (eraseContext_registry (rules.sound _ hI) hm₁ hp).returns
      intro _ w₂ hw₂
      rw [hw₂]
      exact rules.erase _ _ name p hI hm₁ hp hqp (hname fun hd => absurd hd hdefault)
  next hcurrent =>
    refine (eraseContext_registry (rules.sound _ h) hm hp).mono
      (fun _ w₂ hw₂ => ?_) fun _ _ he => he.elim
    rw [hw₂]
    refine rules.erase _ m name p h hm hp hcurrent (hname fun _ => ?_)
    rw [hp]
    exact fun heq => hcurrent (Option.some.inj heq).symm

theorem answer_keeps {x : ManagerM b α} {f : α → Answer} (hx : KeepsRegistry I x w) :
    KeepsRegistry I (x >>= fun a => pure (f a)) w := by
  unfold KeepsRegistry
  rw [meets_bind]
  exact hx

theorem syncAll_keeps (rules : RegistryRules I mayInsert mayErase) {m : Manager}
    (h : I w.registry) (hm : w.registry.mpInstance = some m) :
    KeepsRegistry I ContextManager.syncAll w :=
  keeps_of_eq h <| syncAll_registry hm fun _ hp =>
    ne_of_eq_of_ne ((rules.sound _ h).pointer_alive hm hp) (Option.some_ne_none _)

theorem syncMainContext_keeps (rules : RegistryRules I mayInsert mayErase) {m : Manager}
    (h : I w.registry) (hm : w.registry.mpInstance = some m) :
    KeepsRegistry I ContextManager.syncMainContext w := by
  unfold KeepsRegistry ContextManager.syncMainContext
  rw [meets_bind, meets_this hm]
  rcases hp : m.mContexts.lookup defaultName with _ | p
  · exact h
  · exact keeps_of_eq h
      (onContext_registry ((rules.sound _ h).registered m hm defaultName p hp) .sync)

theorem destroyInstance_keeps (rules : RegistryRules I mayInsert mayErase) (h : I w.registry) :
    KeepsRegistry I ContextManager.destroyInstance w := by
  rcases hm : w.registry.mpInstance with _ | m
  · have hw : w.mpInstance = none := hm
    unfold KeepsRegistry ContextManager.destroyInstance
    rw [meets_bind, meets_get, hw]
    exact h
  · refine (destroyInstance_registry (rules.sound _ h) hm).mono (fun _ w' hw' => ?_)
      fun _ w' hw' => ?_
    · rw [hw']
      exact rules.destroy _ m h hm
    · rw [hw']
      exact h

/-- One case for each call. -/
theorem ManagerOp.run_keeps (rules : RegistryRules I mayInsert mayErase) (op : ManagerOp)
    (h : I w.registry) (hallows : Allows mayInsert mayErase w.registry op) :
    KeepsRegistry I (op.run (b := b)) w := by
  cases op with
  | getInstance => exact meets_getInstance rules h fun _ _ hI _ _ => hI
  | destroyInstance => exact answer_keeps (destroyInstance_keeps rules h)
  | createRunContext name =>
      exact answer_keeps (createRunContext_keeps rules h name (hallows.insert name rfl))
  | deleteRunContext name =>
      refine meets_getInstance rules h fun w' m hI hw' hm => answer_keeps ?_
      exact deleteRunContext_keeps rules hI hm name (hallows.erase name rfl m (hw' ▸ hm))
  | setOperationContext name =>
      refine meets_getInstance rules h fun w' m hI hw' hm => ?_
      refine getContext_keeps rules hI hm name fun p hp _ => answer_keeps ?_
      apply (setOperationContext_registry hm p).returns
      intro _ w₁ hw₁
      rw [hw₁]
      exact rules.activate _ m name p hI hm hp
  | getOperationContext =>
      refine answer_keeps (meets_getInstance rules h fun w' m hI _ hm => ?_)
      rw [meets_bind, meets_this hm]
      split <;> exact hI
  | getGPUContext => exact answer_keeps (getGPUContext_keeps rules h)
  | setOperationPlacement name placement =>
      unfold ManagerOp.run KeepsRegistry
      rw [meets_bind]
      refine meets_lift (fun placement _ => ?_) fun _ _ => h
      refine meets_getInstance rules h fun w' m hI _ hm => ?_
      exact getContext_keeps rules hI hm name fun p _ halive =>
        answer_keeps (keeps_of_eq hI (onContext_registry halive _))
  | getOperationPlacement name =>
      refine meets_getInstance rules h fun w' m hI _ hm => ?_
      refine getContext_keeps rules hI hm name fun p _ halive => answer_keeps ?_
      exact meets_deref halive fun _ _ => hI
  | setRunMode name mode =>
      refine meets_getInstance rules h fun w' m hI _ hm => ?_
      rw [meets_bind]
      refine meets_lift (fun mode _ => ?_) fun _ _ => hI
      exact getContext_keeps rules hI hm name fun p _ halive =>
        answer_keeps (keeps_of_eq hI (onContext_registry halive _))
  | getRunMode name =>
      refine meets_getInstance rules h fun w' m hI _ hm => ?_
      refine getContext_keeps rules hI hm name fun p _ halive => answer_keeps ?_
      exact meets_deref halive fun _ _ => hI
  | finalizeRunContext name =>
      refine meets_getInstance rules h fun w' m hI _ hm => ?_
      rw [meets_bind]
      refine (onNamed_registry (rules.sound _ hI) hm name .sync).mono (fun _ w₁ hw₁ => ?_)
        fun _ w₁ hw₁ => ?_
      · have hI₁ : I w₁.registry := by rw [hw₁]; exact hI
        have hm₁ : w₁.registry.mpInstance = some m := by rw [hw₁]; exact hm
        refine answer_keeps ?_
        rw [KeepsRegistry, meets_onlyIf]
        split
        · exact keeps_of_eq hI₁ (onNamed_registry (rules.sound _ hI₁) hm₁ name .freeWorkBufferHost)
        · exact hI₁
      · rw [hw₁]
        exact hI
  | syncContext name =>
      refine meets_getInstance rules h fun w' m hI _ hm => answer_keeps ?_
      exact keeps_of_eq hI (onNamed_registry (rules.sound _ hI) hm name .sync)
  | syncMainContext =>
      refine meets_getInstance rules h fun w' m hI _ hm => answer_keeps ?_
      exact syncMainContext_keeps rules hI hm
  | syncAll =>
      refine meets_getInstance rules h fun w' m hI _ hm => answer_keeps ?_
      exact syncAll_keeps rules hI hm
  | getNumOfContexts =>
      refine meets_getInstance rules h fun w' m hI _ hm => answer_keeps ?_
      rw [KeepsRegistry, meets_this hm]
      exact hI
  | getAllContextNames =>
      refine meets_getInstance rules h fun w' m hI _ hm => answer_keeps ?_
      rw [KeepsRegistry, meets_this hm]
      exact hI

theorem ManagerOp.step_keeps (rules : RegistryRules I mayInsert mayErase) (op : ManagerOp)
    (h : I w.registry) (hallows : Allows mayInsert mayErase w.registry op) :
    I (op.step w).registry := by
  have hrun : KeepsRegistry I (op.run (b := b)) w := op.run_keeps rules h hallows
  exact hrun.state (P := fun w' : World b => I w'.registry)

/-- Over a whole run. -/
theorem reached_keeps (rules : RegistryRules I mayInsert mayErase) (hinit : I Registry.initial)
    {ok : World b → ManagerOp → Prop}
    (hok : ∀ w op, I w.registry → ok w op → Allows mayInsert mayErase w.registry op)
    {env : b.Env} (h : Reached ManagerOp.step ok (World.initial env) w) : I w.registry :=
  h.keeps (I := fun w => I w.registry) hinit fun w op hI hop =>
    op.step_keeps rules hI (hok w op hI hop)

end
end RCompss.Kernels
