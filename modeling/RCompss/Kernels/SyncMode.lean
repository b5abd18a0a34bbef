import RCompss.Kernels.ContextManager
import RCompss.Kernels.GpuDrained

/-! No context in synchronous mode has work left between operations, in any run of operations
that return. -/
namespace RCompss.Kernels
open RCompss.Library

/-- A call on the context at an address. -/
def onMember {α : Type} (p : Ptr) (x : MemberM α) : ManagerM cudaBuild Unit := do
  let cell ← deref p
  let w ← get
  let (r, m) := exec x ⟨cell.context, w.env⟩
  set { w with
    heap := Function.update w.heap p (some { cell with context := m.this })
    env := m.tick.cuda }
  match r with
  | .ok _ => pure ()
  | .error e => throw (.context e)

/-- `CopyDevice`: with a CPU context active, the context for GPU work does it. -/
def copyDevice (widthT widthX : ℕ) (apSource apDestination : Option ℕ) (aNumElements : ℕ) :
    ManagerM cudaBuild Unit := do
  let context ← ContextManager.getOperationContext
  let cell ← deref context
  let context ← (if cell.context.mOperationPlacement = .CPU then ContextManager.getGPUContext
    else return context)
  onMember context (CudaMemoryKernels.copy widthT widthX apSource apDestination aNumElements)

/-- Operations by name or address, and the device at work. -/
inductive DeviceOp where
  | manager (op : ManagerOp)
  | context (p : Ptr) (op : ContextOp)
  | gpu (p : Ptr) (op : GpuOp)
  | copyDevice (widthT widthX : ℕ) (apSource apDestination : Option ℕ) (aNumElements : ℕ)
  | progress (stream : ℕ)

namespace DeviceOp

def run : DeviceOp → ManagerM cudaBuild Unit
  | manager op => do
      let _ ← op.run
  | context p op => onContext p op
  | gpu p op => onMember p op.run
  | copyDevice widthT widthX src dst n => Kernels.copyDevice widthT widthX src dst n
  | progress stream => modify fun w => { w with env := w.env.progress stream }

def step (op : DeviceOp) (w : World cudaBuild) : World cudaBuild := (exec op.run w).2

def returns (w : World cudaBuild) (op : DeviceOp) : Prop := (exec op.run w).1 = .ok ()

end DeviceOp

/-- Every context is sound, and no two own the same stream or handle. -/
structure WorldSound (w : World cudaBuild) : Prop where
  idle : ∀ id, w.env.next ≤ id → w.env.unfinished id = 0
  sound : ∀ p cell, w.heap p = some cell → ContextSound ⟨cell.context, w.env⟩
  apart : ∀ p q cell cell', p ≠ q → w.heap p = some cell → w.heap q = some cell' →
    ∀ id, cell.context.Owns id → ¬ cell'.context.Owns id

section
variable {w w' : World cudaBuild} {p : Ptr}

/-- What one context does with its own leaves another one sound. -/
theorem ContextSound.other {c c' d : RunContext} {cuda cuda' : Cuda}
    (h : ContextSound ⟨c', cuda⟩) (ho : OnOwn ⟨c, cuda⟩ ⟨d, cuda'⟩)
    (hapart : ∀ id, c.Owns id → ¬ c'.Owns id) : ContextSound ⟨c', cuda'⟩ := by
  have hw : Within c.Owns cuda cuda' := ho.within
  have hnot (id : ℕ) (hid : c'.Owns id) : ¬ c.Owns id := fun hc => hapart id hc hid
  constructor
  · exact fun id hid => (h.known id hid).trans_le hw.next
  · exact hw.idle h.idle
  · intro hgpu
    obtain ⟨hs, hb⟩ := h.bound hgpu
    have hbound {part : Part} {handle : Option ℕ} (hbt : BoundTo ⟨c', cuda⟩ part handle)
        (howned : ∀ id, handle = some id → c'.Owns id) : BoundTo ⟨c', cuda'⟩ part handle :=
      hbt.within hw (fun id hid => h.known id (howned id hid)) rfl fun id hid =>
        hw.streamOf id (h.known id (howned id hid)) (hnot id (howned id hid))
    exact ⟨hbound hs fun _ hid => .inr (.inl hid), hbound hb fun _ hid => .inr (.inr hid)⟩
  · intro hwhen
    refine (h.drained hwhen).congr rfl fun id hid => ?_
    exact hw.unfinished id (h.known id (.inl hid)) (hnot id (.inl hid))

theorem OnOwn.tick {m t : Member} (h : OnOwn m t) : OnOwn m t.tick :=
  h.trans ⟨.tick _, fun _ hid => .inl hid⟩

theorem ContextSound.tick {m : Member} (h : ContextSound m) : ContextSound m.tick :=
  ⟨h.known, h.idle, h.bound, h.drained⟩

theorem WorldSound.idle_of (hw : WorldSound w) {c : RunContext} {t : Member}
    (ho : OnOwn ⟨c, w.env⟩ t) : ∀ id, t.cuda.next ≤ id → t.cuda.unfinished id = 0 :=
  ho.within.idle hw.idle

/-- A context is put at an address, in place of one whose streams and handles no other has. -/
theorem WorldSound.put (hw : WorldSound w) {c : RunContext} {t : Member} {registry : Bool}
    (hapart : ∀ q cell, q ≠ p → w.heap q = some cell → ∀ id, c.Owns id → ¬ cell.context.Owns id)
    (ht : ContextSound t) (ho : OnOwn ⟨c, w.env⟩ t)
    (hheap : w'.heap = Function.update w.heap p (some ⟨t.this, registry⟩))
    (henv : w'.env = t.cuda) : WorldSound w' := by
  have hfar (q : Ptr) (cell : Cell cudaBuild) (hq : q ≠ p) (hcell : w.heap q = some cell) (id : ℕ)
      (hid : t.this.Owns id) : ¬ cell.context.Owns id := by
    rcases ho.owns id hid with hold | hnew
    · exact hapart q cell hq hcell id hold
    · intro hcid
      have hknown := (hw.sound q cell hcell).known id hcid
      exact absurd hnew.1 (not_le.mpr hknown)
  constructor
  · rw [henv]
    exact hw.idle_of ho
  · intro q cell hcell
    rw [hheap, Function.update_apply] at hcell
    rw [henv]
    split at hcell
    · cases hcell
      exact ht
    next hq => exact (hw.sound q cell hcell).other ho (hapart q cell hq hcell)
  · intro q q' cell cell' hne hcell hcell' id hid
    rw [hheap, Function.update_apply] at hcell hcell'
    split at hcell
    next hq =>
      have hq' : q' ≠ p := fun h => hne (hq.trans h.symm)
      rw [if_neg hq'] at hcell'
      cases hcell
      exact hfar q' cell' hq' hcell' id hid
    next hq =>
      split at hcell'
      next hq' =>
        cases hcell'
        exact fun hid' => hfar q cell hq hcell id hid' hid
      next => exact hw.apart q q' cell cell' hne hcell hcell' id hid

/-- A context is destroyed. -/
theorem WorldSound.drop (hw : WorldSound w) {cell : Cell cudaBuild} (hcell : w.heap p = some cell)
    {t : Member} (ho : OnOwn ⟨cell.context, w.env⟩ t)
    (hheap : w'.heap = Function.update w.heap p none) (henv : w'.env = t.cuda) :
    WorldSound w' := by
  have hold (q : Ptr) (c : Cell cudaBuild) (hc : w'.heap q = some c) :
      q ≠ p ∧ w.heap q = some c := by
    rw [hheap] at hc
    exact of_update_none hc
  constructor
  · rw [henv]
    exact hw.idle_of ho
  · intro q c hc
    obtain ⟨hq, hc⟩ := hold q c hc
    rw [henv]
    exact (hw.sound q c hc).other ho (hw.apart p q cell c hq.symm hcell hc)
  · intro q q' c c' hne hc hc'
    exact hw.apart q q' c c' hne (hold q c hc).2 (hold q' c' hc').2

theorem keepsOk_misuse {α : Type} : KeepsOk WorldSound (misuse : ManagerM cudaBuild α) :=
  fun _ _ => trivial

theorem meets_deref_ok {Q : Cell cudaBuild → World cudaBuild → Prop}
    (h : ∀ cell, w.heap p = some cell → Q cell w) : Meets (deref p) w Q fun _ _ => True := by
  rw [deref, meets_bind, meets_get]
  rcases hcell : w.heap p with _ | cell
  · trivial
  · exact h cell hcell

theorem keepsOk_deref : KeepsOk WorldSound (deref p : ManagerM cudaBuild (Cell cudaBuild)) :=
  fun _ hw => meets_deref_ok fun _ _ => hw

/-- A call on a context, if it is sound and returns. -/
theorem onMember_keepsOk {α : Type} {x : MemberM α} (hx : ∀ m, ContextSound m → Sound x m) :
    KeepsOk WorldSound (onMember p x) := by
  intro w hw
  rw [onMember, meets_bind]
  refine meets_deref_ok fun cell hcell => ?_
  rw [meets_bind, meets_get]
  have hrun := hx ⟨cell.context, w.env⟩ (hw.sound p cell hcell)
  unfold Sound Meets at hrun
  rcases hexec : exec x ⟨cell.context, w.env⟩ with ⟨e | a, t⟩ <;> rw [hexec] at hrun
  · trivial
  · exact hw.put (fun q c hq hc => hw.apart p q cell c hq.symm hcell hc) hrun.1.tick hrun.2.tick
      rfl rfl

/-- In this build a call by name works on the members. -/
theorem onContext_eq (op : ContextOp) :
    (onContext p op : ManagerM cudaBuild Unit) = onMember p op.run := by
  unfold onContext onMember
  refine congrArg _ (funext fun cell => congrArg _ (funext fun w => ?_))
  simp only [cudaBuild]
  rcases exec op.run ⟨cell.context, w.env⟩ with ⟨_ | _, m⟩ <;> rfl

theorem onContext_keepsOk (op : ContextOp) :
    KeepsOk WorldSound (onContext p op : ManagerM cudaBuild Unit) := by
  rw [onContext_eq]
  exact onMember_keepsOk fun _ hm => contextOp_sound hm op

theorem newContext_keepsOk (placement : OperationPlacement) (mode : RunMode) (registry : Bool) :
    KeepsOk WorldSound (newContext placement mode registry : ManagerM cudaBuild Ptr) := by
  intro w hw
  rw [newContext, meets_bind, meets_get]
  have hrun := construct_streams placement mode hw.idle
  unfold Sound Meets at hrun
  simp only [cudaBuild]
  rcases hexec : exec (RunContext.construct placement mode) ⟨.raw, w.env⟩ with ⟨e | a, t⟩ <;>
    rw [hexec] at hrun
  · trivial
  · refine hw.put (p := w.next) (fun _ _ _ _ id hid => ?_) hrun.1.tick hrun.2.tick rfl rfl
    rcases hid with h | h | h
    all_goals cases h

theorem deleteContext_keepsOk :
    KeepsOk WorldSound (deleteContext p : ManagerM cudaBuild Unit) := by
  refine KeepsOk.onlyIf fun w hw => ?_
  rw [meets_bind]
  refine meets_deref_ok fun cell hcell => ?_
  rw [meets_modify]
  exact hw.drop hcell (destroy_onOwn ⟨cell.context, w.env⟩).state.tick rfl rfl

section
open ContextManager

/-- What changes the manager only. -/
theorem modifyInstance_keepsOk (f : Manager → Manager) :
    KeepsOk WorldSound (modifyInstance f : ManagerM cudaBuild Unit) := fun _ hw =>
  ⟨hw.idle, hw.sound, hw.apart⟩

theorem this_keepsOk : KeepsOk WorldSound (this : ManagerM cudaBuild Manager) := by
  apply keepsOk_get.bind
  intro w
  split
  · exact .pure _
  · exact keepsOk_misuse

theorem getInstance_keepsOk : KeepsOk WorldSound (getInstance : ManagerM cudaBuild Unit) := by
  intro w hw
  rw [getInstance, meets_bind, meets_get, meets_onlyIf]
  split
  next =>
    have hrest : KeepsOk WorldSound (do
        let context ← newContext .CPU .SYNC true
        modifyInstance fun m => { m with mContexts := m.mContexts.insert defaultName context }
        modifyInstance fun m => { m with
          mpCurrentContext := (m.mContexts.lookup defaultName).getD nullptr } :
          ManagerM cudaBuild Unit) :=
      (newContext_keepsOk _ _ _).bind fun _ => (modifyInstance_keepsOk _).bind fun _ =>
        modifyInstance_keepsOk _
    rw [meets_bind, meets_set]
    exact hrest _ ⟨hw.idle, hw.sound, hw.apart⟩
  next => exact hw

theorem getContext_keepsOk (name : Text) :
    KeepsOk WorldSound (getContext name : ManagerM cudaBuild Ptr) := by
  apply this_keepsOk.bind
  intro m
  split
  · exact keepsOk_throw _
  · exact .pure _

theorem onNamed_keepsOk (name : Text) (op : ContextOp) :
    KeepsOk WorldSound (getContext name >>= fun p => onContext p op : ManagerM cudaBuild Unit) :=
  (getContext_keepsOk name).bind fun _ => onContext_keepsOk op

theorem syncAll_keepsOk : KeepsOk WorldSound (syncAll : ManagerM cudaBuild Unit) :=
  this_keepsOk.bind fun _ => KeepsOk.forM (fun _ => (onContext_keepsOk .sync).onlyIf) _

theorem destroyInstance_keepsOk :
    KeepsOk WorldSound (destroyInstance : ManagerM cudaBuild Unit) := by
  apply keepsOk_get.bind
  intro w
  split
  · exact .pure _
  · apply syncAll_keepsOk.bind
    intro _
    apply (KeepsOk.forM (fun _ => deleteContext_keepsOk) _).bind
    intro _
    apply deleteContext_keepsOk.bind
    intro _
    exact fun _ hw => ⟨hw.idle, hw.sound, hw.apart⟩

theorem eraseContext_keepsOk (name : Text) :
    KeepsOk WorldSound (eraseContext name : ManagerM cudaBuild Unit) :=
  (getContext_keepsOk name).bind fun _ => (keepsOk_throw _).onlyIf.bind fun _ =>
    (modifyInstance_keepsOk _).bind fun _ => deleteContext_keepsOk

theorem deleteRunContext_keepsOk (name : Text) :
    KeepsOk WorldSound (deleteRunContext name : ManagerM cudaBuild Unit) := by
  apply this_keepsOk.bind
  intro m
  apply (getContext_keepsOk name).bind
  intro p
  have hdefault := (getContext_keepsOk defaultName).bind fun p =>
    (modifyInstance_keepsOk fun m => { m with mpCurrentContext := p }).bind fun _ =>
      eraseContext_keepsOk name
  exact .ite (.ite (.pure _) hdefault) (eraseContext_keepsOk name)

theorem getOperationContext_keepsOk :
    KeepsOk WorldSound (getOperationContext : ManagerM cudaBuild Ptr) :=
  getInstance_keepsOk.bind fun _ => this_keepsOk.bind fun _ => .ite (keepsOk_throw _) (.pure _)

theorem getGPUContext_keepsOk :
    KeepsOk WorldSound (getGPUContext : ManagerM cudaBuild Ptr) := by
  apply getInstance_keepsOk.bind
  intro _
  apply this_keepsOk.bind
  intro _
  apply KeepsOk.ite
  · exact (newContext_keepsOk _ _ _).bind fun _ => (modifyInstance_keepsOk _).bind fun _ => .pure _
  · exact .pure _

/-- Every call of the manager and its adapters. -/
theorem managerOp_keepsOk (op : ManagerOp) :
    KeepsOk WorldSound (op.run : ManagerM cudaBuild Answer) := by
  have hdone {α : Type} {x : ManagerM cudaBuild α} (h : KeepsOk WorldSound x) (a : Answer) :
      KeepsOk WorldSound (do let _ ← x; return a : ManagerM cudaBuild Answer) :=
    h.bind fun _ => .pure _
  have hcell {f : Cell cudaBuild → Answer} (name : Text) :
      KeepsOk WorldSound (do
        ContextManager.getInstance
        let p ← getContext name
        let cell ← deref p
        return f cell : ManagerM cudaBuild Answer) :=
    getInstance_keepsOk.bind fun _ => (getContext_keepsOk name).bind fun _ =>
      keepsOk_deref.bind fun _ => .pure _
  have hlift {α : Type} (x : Except ManagerError α) :
      KeepsOk WorldSound (liftM x : ManagerM cudaBuild α) := fun _ hw =>
    meets_lift (fun _ _ => hw) fun _ _ => trivial
  cases op with
  | getInstance => exact hdone getInstance_keepsOk _
  | destroyInstance => exact hdone destroyInstance_keepsOk _
  | createRunContext name =>
    refine hdone (getInstance_keepsOk.bind fun _ => (newContext_keepsOk _ _ _).bind fun _ => ?_) _
    exact (modifyInstance_keepsOk _).bind fun _ => .pure _
  | deleteRunContext name =>
    exact getInstance_keepsOk.bind fun _ => hdone (deleteRunContext_keepsOk name) _
  | setOperationContext name =>
    exact getInstance_keepsOk.bind fun _ => (getContext_keepsOk name).bind fun _ =>
      hdone (modifyInstance_keepsOk _) _
  | getOperationContext => exact getOperationContext_keepsOk.bind fun _ => .pure _
  | getGPUContext => exact getGPUContext_keepsOk.bind fun _ => .pure _
  | setOperationPlacement name placement =>
    exact (hlift _).bind fun _ => getInstance_keepsOk.bind fun _ =>
      (getContext_keepsOk name).bind fun _ => hdone (onContext_keepsOk _) _
  | getOperationPlacement name => exact hcell name
  | setRunMode name mode =>
    exact getInstance_keepsOk.bind fun _ => (hlift _).bind fun _ =>
      (getContext_keepsOk name).bind fun _ => hdone (onContext_keepsOk _) _
  | getRunMode name => exact hcell name
  | finalizeRunContext name =>
    exact getInstance_keepsOk.bind fun _ => (onNamed_keepsOk name .sync).bind fun _ =>
      hdone (onNamed_keepsOk name .freeWorkBufferHost).onlyIf _
  | syncContext name => exact getInstance_keepsOk.bind fun _ => hdone (onNamed_keepsOk name .sync) _
  | syncMainContext =>
    refine getInstance_keepsOk.bind fun _ => hdone (this_keepsOk.bind fun m => ?_) _
    split
    · exact keepsOk_throw _
    · exact onContext_keepsOk .sync
  | syncAll => exact getInstance_keepsOk.bind fun _ => hdone syncAll_keepsOk _
  | getNumOfContexts =>
    exact getInstance_keepsOk.bind fun _ => this_keepsOk.bind fun _ => .pure _
  | getAllContextNames =>
    exact getInstance_keepsOk.bind fun _ => this_keepsOk.bind fun _ => .pure _

end

theorem copyDevice_keepsOk (widthT widthX : ℕ) (src dst : Option ℕ) (n : ℕ) :
    KeepsOk WorldSound (copyDevice widthT widthX src dst n) := by
  apply getOperationContext_keepsOk.bind
  intro context
  apply keepsOk_deref.bind
  intro cell
  apply (KeepsOk.ite getGPUContext_keepsOk (.pure _)).bind
  intro context
  exact onMember_keepsOk fun m hm => launch_sound hm _ _

/-- Every operation that returns, and the device at any time. -/
theorem deviceOp_keepsOk (op : DeviceOp) : KeepsOk WorldSound op.run := by
  cases op with
  | manager op => exact (managerOp_keepsOk op).bind fun _ => .pure _
  | context p op => exact onContext_keepsOk op
  | gpu p op => exact onMember_keepsOk fun m hm => gpuOp_sound hm op
  | copyDevice widthT widthX src dst n => exact copyDevice_keepsOk widthT widthX src dst n
  | progress stream =>
    intro w hw
    have hprogress : Within (fun _ => False) w.env (w.env.progress stream) := .progress _ _
    refine ⟨hprogress.idle hw.idle, fun p cell hcell => ?_, hw.apart⟩
    exact (hw.sound p cell hcell).quiet ⟨hprogress, rfl⟩

theorem WorldSound.initial (fails : ℕ → Call → Bool) :
    WorldSound (World.initial (b := cudaBuild) (Cuda.fresh fails)) := by
  have hnone (p : Ptr) (cell : Cell cudaBuild) :
      (World.initial (b := cudaBuild) (Cuda.fresh fails)).heap p ≠ some cell :=
    (Option.some_ne_none cell).symm
  exact ⟨fun _ _ => rfl, fun p cell h => absurd h (hnone p cell),
    fun p _ cell _ _ h => absurd h (hnone p cell)⟩

theorem step_worldSound (hw : WorldSound w) {op : DeviceOp} (h : op.returns w) :
    WorldSound (op.step w) := by
  have hrun := deviceOp_keepsOk op w hw
  unfold DeviceOp.returns at h
  unfold DeviceOp.step
  rcases hexec : exec op.run w with ⟨e | _, w'⟩
  · rw [hexec] at h
    cases h
  · rw [Meets, hexec] at hrun
    exact hrun

/-- In every run of operations that return, with the device getting its work done whenever it
does, no context in synchronous mode has work left on its stream. -/
theorem sync_contexts_drained (fails : ℕ → Call → Bool) {w : World cudaBuild}
    (h : Reached DeviceOp.step DeviceOp.returns (World.initial (Cuda.fresh fails)) w)
    {p : Ptr} {cell : Cell cudaBuild} (hcell : w.heap p = some cell)
    (hmode : cell.context.mRunMode = .SYNC) {stream : ℕ}
    (hstream : cell.context.mCudaStream = some stream) : w.env.unfinished stream = 0 := by
  have hw : WorldSound w := h.keeps (.initial fails) fun _ _ hs hop => step_worldSound hs hop
  exact (hw.sound p cell hcell).drained (.inl hmode) stream hstream

/-- A GPU context that was given work in asynchronous mode. -/
def asyncWork : World cudaBuild :=
  steps DeviceOp.step [.manager .getGPUContext, .context 2 (.setRunMode .ASYNC),
    .context 2 (.requestWorkBufferDevice 8), .gpu 2 (.memset (some 4) 8 .GPU)]
    (World.initial (Cuda.fresh fun _ _ => false))

/-- The change back to synchronous mode waits for it. -/
theorem async_work_waited_for : asyncWork.env.unfinished 0 = 1 ∧
    ((DeviceOp.context 2 (.setRunMode .SYNC)).step asyncWork).env.unfinished 0 = 0 := by
  have hrun : Reached DeviceOp.step DeviceOp.returns
      (World.initial (Cuda.fresh fun _ _ => false))
      ((DeviceOp.context 2 (.setRunMode .SYNC)).step asyncWork) :=
    .next (DeviceOp.context 2 (.setRunMode .SYNC)) (.next (DeviceOp.gpu 2 (.memset (some 4) 8 .GPU))
      (.next (DeviceOp.context 2 (.requestWorkBufferDevice 8))
        (.next (DeviceOp.context 2 (.setRunMode .ASYNC))
          (.next (DeviceOp.manager .getGPUContext) .start rfl) rfl) rfl) rfl) rfl
  exact ⟨rfl, sync_contexts_drained _ hrun (p := 2) rfl rfl rfl⟩

end

end RCompss.Kernels
