import RCompss.Kernels.ManagerOps

/-! The contexts that are alive are the registered ones, until a name in use is given again. -/
namespace RCompss.Kernels
open RCompss.Library

/-- The registry has what was made for it and is alive, and the active context is one of it. -/
structure Complete (s : Registry) : Prop where
  sound : RegistrySound s
  without : s.mpInstance = none → ∀ p, s.alive p ≠ some true
  registered : ∀ m, s.mpInstance = some m → ∀ p, s.alive p = some true → p ∈ m.pointers
  current : ∀ m, s.mpInstance = some m → m.mpCurrentContext ∈ m.pointers

/-- The name is not in use. -/
def Unused (m : Manager) (name : Text) : Prop := m.mContexts.lookup name = none

namespace Complete
variable {s : Registry} {m : Manager}

theorem update_eq_some_true {p q : Ptr} {r : Option Bool}
    (h : Function.update s.alive q r p = some true) :
    (p = q ∧ r = some true) ∨ s.alive p = some true := by
  by_cases hp : p = q
  · subst hp
    rw [Function.update_self] at h
    exact .inl ⟨rfl, h⟩
  · rw [Function.update_of_ne hp] at h
    exact .inr h

theorem started (h : Complete s) (hs : s.mpInstance = none) : Complete s.started := by
  have hmem (m : Manager) (hm : s.started.mpInstance = some m) : s.next ∈ m.pointers := by
    cases hm
    exact mem_pointers_iff.mpr ⟨defaultName, AList.lookup_insert _⟩
  refine ⟨h.sound.started, nofun, fun m hm p hp => ?_, fun m hm => ?_⟩
  · rcases update_eq_some_true hp with ⟨rfl, -⟩ | hp
    · exact hmem m hm
    · exact absurd hp (h.without hs p)
  · have hcurrent := hmem m hm
    cases hm
    exact hcurrent

/-- A new name leaves the entries there are. -/
theorem created (h : Complete s) (hm : s.mpInstance = some m) {name : Text}
    (hname : Unused m name) : Complete (s.created m name) := by
  have hkept {p : Ptr} (hp : p ∈ m.pointers) :
      p ∈ ({ m with mContexts := m.mContexts.insert name s.next } : Manager).pointers := by
    obtain ⟨name', hname'⟩ := mem_pointers_iff.mp hp
    refine mem_pointers_iff.mpr ⟨name', ?_⟩
    have hne : name' ≠ name := by
      rintro rfl
      rw [hname] at hname'
      contradiction
    exact (AList.lookup_insert_ne hne).trans hname'
  refine ⟨h.sound.created hm name, nofun, ?_, ?_⟩
  · rintro _ ⟨⟩ p hp
    rcases update_eq_some_true hp with ⟨rfl, -⟩ | hp
    · exact mem_pointers_iff.mpr ⟨name, AList.lookup_insert _⟩
    · exact hkept (h.registered m hm p hp)
  · rintro _ ⟨⟩
    exact hkept (h.current m hm)

theorem activated (h : Complete s) (hm : s.mpInstance = some m) {name : Text} {p : Ptr}
    (hp : m.mContexts.lookup name = some p) : Complete (s.activated m p) := by
  refine ⟨h.sound.activated hm hp, nofun, ?_, ?_⟩
  · rintro _ ⟨⟩
    exact h.registered m hm
  · rintro _ ⟨⟩
    exact mem_pointers_iff.mpr ⟨name, hp⟩

/-- The entries of other contexts stay. -/
theorem erased (h : Complete s) (hm : s.mpInstance = some m) {name : Text} {p : Ptr}
    (hp : m.mContexts.lookup name = some p) (hcurrent : m.mpCurrentContext ≠ p) :
    Complete (s.erased m name p) := by
  have hkept {q : Ptr} (hq : q ∈ m.pointers) (hne : q ≠ p) :
      q ∈ ({ m with mContexts := m.mContexts.erase name } : Manager).pointers := by
    obtain ⟨name', hname'⟩ := mem_pointers_iff.mp hq
    refine mem_pointers_iff.mpr ⟨name', ?_⟩
    have hname : name' ≠ name := by
      rintro rfl
      rw [hp] at hname'
      exact hne (Option.some.inj hname').symm
    exact (AList.lookup_erase_ne hname).trans hname'
  refine ⟨h.sound.erased hm hp hcurrent, nofun, ?_, ?_⟩
  · rintro _ ⟨⟩ q hq
    by_cases hne : q = p
    · subst hne
      have hgone : Function.update s.alive q none q = some true := hq
      rw [Function.update_self] at hgone
      contradiction
    · have halive : Function.update s.alive p none q = some true := hq
      rw [Function.update_of_ne hne] at halive
      exact hkept (h.registered m hm q halive) hne
  · rintro _ ⟨⟩
    exact hkept (h.current m hm) hcurrent

theorem equipped (h : Complete s) (hm : s.mpInstance = some m) : Complete (s.equipped m) := by
  refine ⟨h.sound.equipped hm, nofun, ?_, ?_⟩
  · rintro _ ⟨⟩ p hp
    rcases update_eq_some_true hp with ⟨-, hnone⟩ | hp
    · contradiction
    · exact h.registered m hm p hp
  · rintro _ ⟨⟩
    exact h.current m hm

theorem destroyed (h : Complete s) (hm : s.mpInstance = some m) : Complete (s.destroyed m) := by
  refine ⟨h.sound.destroyed m, fun _ p hp => ?_, nofun, nofun⟩
  have halive : (if p ∈ m.pointers ∨ p = m.mpGPUContext then none else s.alive p) = some true := hp
  split at halive
  next => contradiction
  next hout => exact hout (.inl (h.registered m hm p halive))

end Complete

/-- The context whose name is given to another is alive and has no name. -/
theorem RegistrySound.replaced {s : Registry} {m : Manager} (h : RegistrySound s)
    (hm : s.mpInstance = some m) {name : Text} {p : Ptr} (hp : m.mContexts.lookup name = some p) :
    (s.created m name).alive p = some true ∧
      p ∉ ({ m with mContexts := m.mContexts.insert name s.next } : Manager).pointers := by
  have halive := h.registered m hm name p hp
  refine ⟨(alive_update h true).2.2 p true halive, fun hmem => ?_⟩
  obtain ⟨name', hname'⟩ := mem_pointers_iff.mp hmem
  by_cases hname : name' = name
  · subst hname
    rw [AList.lookup_insert] at hname'
    exact h.alive_ne_next halive (Option.some.inj hname').symm
  · rw [AList.lookup_insert_ne hname] at hname'
    exact hname (h.distinct m hm name' name p hname' hp)

theorem completeRules : RegistryRules Complete Unused fun _ => True where
  sound _ h := h.sound
  start _ h hs := h.started hs
  create _ _ _ h hm hname := h.created hm hname
  activate _ _ _ _ h hm hp := h.activated hm hp
  erase _ _ _ _ h hm hp hcurrent _ := h.erased hm hp hcurrent
  equip _ _ h hm _ := h.equipped hm
  destroy _ _ h hm := h.destroyed hm

section
variable {b : Build} {w : World b}

/-- A context made by `GetInstance` or `CreateRunContext` and not deleted so far. -/
def World.Live (w : World b) (p : Ptr) : Prop := ∃ cell, w.heap p = some cell ∧ cell.registry = true

theorem live_iff {p : Ptr} : w.Live p ↔ w.registry.alive p = some true :=
  Option.map_eq_some_iff.symm

/-- `Sync` was called on the context at an address, once. -/
def Synced (w w' : World b) (p : Ptr) : Prop :=
  ∃ cell v context env env', w.heap p = some cell ∧
    b.call .sync cell.context env = (.ok v, context, env') ∧
      w'.heap p = some { cell with context }

/-- In whatever order live contexts are synced, no `Sync` throws. -/
def SyncsReturn (w : World b) : Prop := ∀ ps : List Ptr, ps.Nodup → (∀ p ∈ ps, w.Live p) →
  Meets (ps.forM fun p => onContext p .sync) w (fun _ _ => True) fun _ _ => False

/-- The live contexts are the registered ones, each under one name. Where no `Sync` throws,
`SyncAll` returns and has called it on every live context, and `DestroyInstance` returns and
has released every live context. -/
structure Coincide (w : World b) : Prop where
  without : w.mpInstance = none → ∀ p, ¬w.Live p
  registered : ∀ m, w.mpInstance = some m → ∀ p, w.Live p ↔ p ∈ m.pointers
  distinct : ∀ m, w.mpInstance = some m → ∀ name name' p, m.mContexts.lookup name = some p →
    m.mContexts.lookup name' = some p → name = name'
  current : ∀ m, w.mpInstance = some m → m.mpCurrentContext ∈ m.pointers
  reached : SyncsReturn w → ∀ m, w.mpInstance = some m →
    Meets ContextManager.syncAll w (fun _ w' => ∀ p, w.Live p → Synced w w' p) fun _ _ => False
  released : SyncsReturn w →
    Meets ContextManager.destroyInstance w (fun _ w' => ∀ p, ¬w'.Live p) fun _ _ => False

/-- A member call changes the context it is called on and no other. -/
theorem onContext_heap {p : Ptr} {cell : Cell b} (h : w.heap p = some cell) (op : ContextOp) :
    Meets (onContext p op) w
      (fun _ w' => (∃ v context env', b.call op cell.context w.env = (.ok v, context, env') ∧
        w'.heap p = some { cell with context }) ∧ ∀ q, q ≠ p → w'.heap q = w.heap q)
      fun _ _ => True := by
  have halive : w.registry.alive p = some cell.registry := congrArg (Option.map Cell.registry) h
  rw [onContext, meets_bind]
  refine meets_deref halive fun cell' hcell' => ?_
  obtain rfl : cell = cell' := Option.some.inj (h.symm.trans hcell')
  rw [meets_bind, meets_get]
  rcases hcall : b.call op cell.context w.env with ⟨e | v, context, env⟩
  · trivial
  · exact ⟨⟨v, context, env, rfl, Function.update_self ..⟩, fun q hq => Function.update_of_ne hq ..⟩

/-- `SyncAll`, where no `Sync` throws, calls `Sync` on every registered context. -/
theorem syncAll_synced {m : Manager} (h : RegistrySound w.registry) (hm : w.mpInstance = some m) :
    Meets ContextManager.syncAll w (fun _ w' => ∀ p ∈ m.pointers, Synced w w' p)
      fun _ _ => True := by
  have hm' : w.registry.mpInstance = some m := hm
  rw [ContextManager.syncAll, meets_bind, meets_this hm']
  -- what is still to be done is as it was, what is done is synced and not to be done again
  have hloop := meets_forM (f := fun p : Ptr => onlyIf (p ≠ nullptr) (onContext (b := b) p .sync))
    (fun ps w' => ps.Nodup ∧ (∀ p ∈ ps, p ∈ m.pointers ∧ w'.heap p = w.heap p) ∧
      ∀ p ∈ m.pointers, p ∉ ps → Synced w w' p) (E := fun _ _ => True) ?_ m.pointers
      ⟨h.nodup_pointers hm', fun p hp => ⟨hp, rfl⟩, fun p hp hnot => absurd hp hnot⟩
  · exact hloop.orRaises fun _ _ hdone p hp => hdone.2.2 p hp List.not_mem_nil
  · rintro p ps w' ⟨hnodup, htodo, hdone⟩
    obtain ⟨hp, hnodup⟩ := List.nodup_cons.mp hnodup
    obtain ⟨hmem, hheap⟩ := htodo p List.mem_cons_self
    have halive := h.pointer_alive hm' hmem
    rw [meets_onlyIf, if_pos (h.ne_nullptr halive)]
    obtain ⟨cell, hcell, -⟩ := heap_of_alive halive
    apply (onContext_heap (hheap.trans hcell) .sync).orRaises
    intro _ w'' hw''
    obtain ⟨⟨v, context, env', hcall, hself⟩, hother⟩ := hw''
    refine ⟨hnodup, fun q hq => ?_, fun q hq hnot => ?_⟩
    · have htodo := htodo q (List.mem_cons_of_mem p hq)
      exact ⟨htodo.1, (hother q (ne_of_mem_of_not_mem hq hp)).trans htodo.2⟩
    · by_cases hqp : q = p
      · subst hqp
        exact ⟨cell, v, context, w'.env, env', hcell, hcall, hself⟩
      · obtain ⟨cell, v, context, env, env', hcell, hcall, hself⟩ :=
          hdone q hq (fun hmem => (List.mem_cons.mp hmem).elim hqp hnot)
        exact ⟨cell, v, context, env, env', hcell, hcall, (hother q hqp).trans hself⟩

/-- No address in a list is null. -/
theorem forM_onlyIf_ne_null {f : Ptr → ManagerM b Unit} {ps : List Ptr}
    (h : ∀ p ∈ ps, p ≠ nullptr) :
    ps.forM (fun p => onlyIf (p ≠ nullptr) (f p)) = ps.forM f := by
  induction ps with
  | nil => rfl
  | cons p ps ih =>
    have hps := ih fun q hq => h q (List.mem_cons_of_mem p hq)
    simp only [List.forM_eq_forM] at hps ⊢
    rw [List.forM_cons, List.forM_cons, hps, onlyIf, if_pos (h p List.mem_cons_self)]

/-- `SyncAll` returns where no `Sync` throws. -/
theorem syncAll_returns {m : Manager} (h : RegistrySound w.registry) (hm : w.mpInstance = some m)
    (hsyncs : SyncsReturn w) :
    Meets ContextManager.syncAll w (fun _ _ => True) fun _ _ => False := by
  have hm' : w.registry.mpInstance = some m := hm
  have hlive : ∀ p ∈ m.pointers, w.Live p := fun p hp => live_iff.mpr (h.pointer_alive hm' hp)
  rw [ContextManager.syncAll, meets_bind, meets_this hm', forM_onlyIf_ne_null fun p hp =>
    h.ne_nullptr (h.pointer_alive hm' hp)]
  exact hsyncs m.pointers (h.nodup_pointers hm') hlive

theorem Complete.coincide (h : Complete w.registry) : Coincide w := by
  have hlive (m : Manager) (hm : w.mpInstance = some m) (p : Ptr) : w.Live p ↔ p ∈ m.pointers :=
    ⟨fun hp => h.registered m hm p (live_iff.mp hp),
      fun hp => live_iff.mpr (h.sound.pointer_alive hm hp)⟩
  refine ⟨fun hw p hp => h.without hw p (live_iff.mp hp), hlive, h.sound.distinct, h.current,
    ?_, ?_⟩
  · intro hsyncs m hm
    have hsynced := (syncAll_returns h.sound hm hsyncs).and (syncAll_synced h.sound hm)
    exact hsynced.mono (fun _ w' hw' p hp => hw'.2 p ((hlive m hm p).mp hp)) fun _ _ he => he.1
  · intro hsyncs
    rcases hw : w.mpInstance with _ | m
    · rw [ContextManager.destroyInstance, meets_bind, meets_get, hw]
      exact fun p hp => h.without hw p (live_iff.mp hp)
    · have halive : ∀ p ∈ m.pointers, w.registry.alive p ≠ none := fun p hp =>
        ne_of_eq_of_ne (h.sound.pointer_alive hw hp) (Option.some_ne_none _)
      have hsync := (syncAll_returns h.sound hw hsyncs).and (syncAll_registry hw halive)
      apply (destroyInstance_of_syncAll h.sound hw (hsync.mono (fun _ _ hw' => hw'.2)
        fun _ _ he => he.1)).imp
      intro _ w' hw' p hp
      have hdestroyed := h.destroyed hw
      rw [← hw'] at hdestroyed
      exact hdestroyed.without (by rw [hw']; rfl) p (live_iff.mp hp)

/-- Where `Sync` returns in every environment of a kind, and leaves one of that kind. -/
theorem syncsReturn_of_healthy (healthy : b.Env → Prop) (henv : healthy w.env)
    (hcall : ∀ c env, healthy env →
      ∃ v c' env', b.call .sync c env = (.ok v, c', env') ∧ healthy env') : SyncsReturn w := by
  intro ps hnodup hlive
  induction ps generalizing w with
  | nil => trivial
  | cons p ps ih =>
    obtain ⟨hp, hnodup⟩ := List.nodup_cons.mp hnodup
    obtain ⟨cell, hcell, hregistry⟩ := hlive p List.mem_cons_self
    obtain ⟨v, c', env', hsync, henv'⟩ := hcall cell.context w.env henv
    have hsynced : exec (onContext p .sync) w = (.ok (), { w with
        heap := Function.update w.heap p (some { cell with context := c' }), env := env' }) := by
      simp [onContext, deref, exec_bind, hcell, hsync]
    rw [List.forM_eq_forM, List.forM_cons, meets_bind, Meets, hsynced]
    refine ih henv' hnodup fun q hq => ?_
    obtain ⟨cell', hcell', hregistry'⟩ := hlive q (List.mem_cons_of_mem p hq)
    exact ⟨cell', (Function.update_of_ne (ne_of_mem_of_not_mem hq hp) ..).trans hcell', hregistry'⟩

theorem syncsReturn_plain (w : World plainBuild) : SyncsReturn w :=
  syncsReturn_of_healthy (fun _ => True) trivial fun _ _ _ => ⟨_, _, _, rfl, trivial⟩

/-- From here on `cudaStreamSynchronize` does not fail. -/
def Synchronizes (cuda : Cuda) : Prop := ∀ t, cuda.time ≤ t → cuda.fails t .synchronize = false

theorem time_touch (cuda : Cuda) (part : Part) (p : Option ℕ) :
    (cuda.touch part p).time = cuda.time := by
  unfold Cuda.touch
  split <;> rfl

theorem fails_touch (cuda : Cuda) (part : Part) (p : Option ℕ) :
    (cuda.touch part p).fails = cuda.fails := by
  unfold Cuda.touch
  split <;> rfl

theorem syncsReturn_cuda {w : World cudaBuild} (h : Synchronizes w.env) : SyncsReturn w := by
  refine syncsReturn_of_healthy Synchronizes h fun c cuda hcuda => ?_
  have hnow : cuda.failing .synchronize = false := hcuda _ le_rfl
  have hrun : Meets (ContextOp.run .sync) ⟨c, cuda⟩
      (fun _ m => m.cuda.time = cuda.time ∧ m.cuda.fails = cuda.fails) fun _ _ => False := by
    rw [ContextOp.run, meets_bind, RunContext.meets_sync, hnow]
    split
    · exact ⟨time_touch .., fails_touch ..⟩
    · exact ⟨rfl, rfl⟩
  obtain ⟨v, m, hexec, htime, hfails⟩ | ⟨_, _, -, hfalse⟩ := hrun.run
  · refine ⟨v, m.this, m.tick.cuda, by simp only [cudaBuild, hexec], fun t ht => ?_⟩
    have hlater : cuda.time + 1 ≤ t := htime ▸ ht
    exact (congrFun (congrFun hfails t) _).trans (hcuda t (by omega))
  · exact hfalse.elim

/-- A context is created under a name that is not in use. -/
def createsUnused (w : World b) (op : ManagerOp) : Prop :=
  ∀ name, op = .createRunContext name →
    (w.mpInstance = none → name ≠ defaultName) ∧
      ∀ m, w.mpInstance = some m → m.mContexts.lookup name = none

theorem createsUnused_iff {op : ManagerOp} {m : Manager}
    (hm : w.registry.withInstance.mpInstance = some m) :
    createsUnused w op ↔ ∀ name, op = .createRunContext name → Unused m name := by
  refine forall₂_congr fun name _ => ?_
  rcases Registry.withInstance_cases hm with ⟨hw, rfl⟩ | hw
  · have hnone : w.mpInstance = none := hw
    simp only [hnone, true_implies, reduceCtorEq, false_implies, implies_true, and_true]
    constructor
    · exact fun hne => (AList.lookup_insert_ne hne).trans (AList.lookup_empty _)
    · rintro hunused rfl
      rw [Unused, AList.lookup_insert] at hunused
      contradiction
  · have hinstance : w.mpInstance = some m := hw
    simp only [hinstance, reduceCtorEq, false_implies, true_and, Option.some.injEq]
    exact ⟨fun h => h m rfl, fun h _ heq => heq ▸ h⟩

theorem createsUnused_allows {op : ManagerOp} (h : createsUnused w op) :
    Allows Unused (fun _ => True) w.registry op :=
  ⟨fun name hop _ hm => (createsUnused_iff hm).mp h name hop, fun _ _ _ _ _ => trivial⟩

theorem complete_initial : Complete Registry.initial :=
  ⟨.initial, fun _ _ => nofun, nofun, nofun⟩

/-- In every run that gives no name twice. -/
theorem live_contexts_registered (env : b.Env) (w : World b)
    (h : Reached ManagerOp.step createsUnused (World.initial env) w) : Coincide w :=
  Complete.coincide <| reached_keeps completeRules complete_initial
    (fun _ _ _ => createsUnused_allows) h

/-- A name given again leaves a live context without a name. -/
theorem not_coincide_of_used {env : b.Env}
    (h : Reached ManagerOp.step anyStep (World.initial env) w) {op : ManagerOp}
    (hop : ¬createsUnused w op) : ¬Coincide (op.step w) := by
  have hsound : RegistrySound w.registry := reached_keeps soundRules .initial
    (fun _ _ _ _ => ⟨fun _ _ _ _ => trivial, fun _ _ _ _ _ => trivial⟩) h
  obtain ⟨hsound, m, hm⟩ := soundRules.withInstance hsound
  rw [createsUnused_iff hm] at hop
  push Not at hop
  obtain ⟨name, rfl, hused⟩ := hop
  obtain ⟨p, hp⟩ := Option.ne_none_iff_exists'.mp hused
  have hstep : ((ManagerOp.createRunContext name).step w).registry =
      w.registry.withInstance.created m name := by
    have hrun : Meets (ManagerOp.run (.createRunContext name)) w
        (fun _ w' => w'.registry = w.registry.withInstance.created m name)
        fun _ w' => w'.registry = w.registry.withInstance.created m name := by
      rw [ManagerOp.run, meets_bind]
      exact (createRunContext_registry hm name).returns fun _ _ hw' => hw'
    exact hrun.state (P := fun w' : World b => w'.registry = _)
  obtain ⟨halive, hlost⟩ := hsound.replaced hm hp
  intro hcoincide
  have hinstance := congrArg Registry.mpInstance hstep
  refine hlost ((hcoincide.registered _ hinstance p).mp (live_iff.mpr ?_))
  rw [hstep]
  exact halive

/-- Two contexts are created, one of them activated, deleted and created again. -/
def createdAndDeleted : World plainBuild :=
  steps ManagerOp.step [.createRunContext "a".toList, .createRunContext "b".toList,
    .setOperationContext "b".toList, .deleteRunContext "b".toList,
    .createRunContext "b".toList] (World.initial ())

/-- The live ones are registered, and `DestroyInstance` releases them all. -/
theorem created_and_deleted_coincide : Coincide createdAndDeleted ∧
    Meets ContextManager.destroyInstance createdAndDeleted (fun _ w' => ∀ p, ¬w'.Live p)
      fun _ _ => False := by
  have hcreates {w : World plainBuild} {m : Manager} {name : Text} (hm : w.mpInstance = some m)
      (hname : m.mContexts.lookup name = none) :
      createsUnused w (.createRunContext name) := by
    rintro _ ⟨⟩
    refine ⟨fun hw => ?_, fun m' hm' => ?_⟩
    · rw [hm] at hw
      contradiction
    · obtain rfl : m = m' := Option.some.inj (hm.symm.trans hm')
      exact hname
  have hfirst : createsUnused (World.initial (b := plainBuild) ())
      (.createRunContext "a".toList) := by
    rintro _ ⟨⟩
    exact ⟨fun _ => by decide, nofun⟩
  have hreached : Reached ManagerOp.step createsUnused (World.initial ()) createdAndDeleted :=
    .next _ (.next _ (.next _ (.next _ (.next _ .start hfirst) (hcreates rfl (by decide)))
      nofun) nofun) (hcreates rfl (by decide))
  have hcoincide := live_contexts_registered () createdAndDeleted hreached
  exact ⟨hcoincide, hcoincide.released (syncsReturn_plain createdAndDeleted)⟩

/-- The second context of a name takes the place of the first, which stays in memory. -/
theorem replaced_context_lost : ∃ w : World plainBuild,
    Reached ManagerOp.step anyStep (World.initial ()) w ∧ ¬Coincide w ∧
      (ManagerOp.destroyInstance.step w).Live 2 := by
  refine ⟨steps ManagerOp.step [.createRunContext "a".toList, .createRunContext "a".toList]
    (World.initial ()), Reached.start.steps _, ?_, ⟨_, rfl, rfl⟩⟩
  intro h
  have hlost := (h.registered _ rfl 2).mp ⟨_, rfl, rfl⟩
  revert hlost
  decide

end
end RCompss.Kernels
