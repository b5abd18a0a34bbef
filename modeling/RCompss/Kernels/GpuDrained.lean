import RCompss.Kernels.Drained

/-! Work for the device is waited for where the context is synchronous. -/
namespace RCompss.Kernels
open RCompss.Library

section
variable {m t : Member}

theorem meets_getMetadata {member : RunContext → Option ℕ} {Q : Option ℕ → Member → Prop}
    {E : GpuError → Member → Prop} : Meets (RunContext.getMetadata member) m Q E ↔
      if m.this.mOperationPlacement = .CPU then E .cpuContext m else Q (member m.this) m := by
  rw [RunContext.getMetadata, meets_bind, meets_get]
  split <;> rfl

/-- Work for the context's own stream. -/
theorem busy_enqueue (hm : ContextSound m) (h : Quiet m t) :
    Busy m { t with cuda := t.cuda.enqueue m.this.mCudaStream } := by
  have hstream : t.this.mCudaStream = m.this.mCudaStream := congrArg Streaming.stream h.streaming
  refine h.busy.trans ⟨.enqueue _ (fun _ hid => ?_) fun _ hid => ?_, fun _ _ => rfl, rfl⟩
  · exact .inl (hstream.trans hid)
  · exact (hm.known _ (.inl hid)).trans_le h.within.next

theorem enqueue_busy (hm : ContextSound m) (accesses : List (Option ℕ × ℕ)) :
    Meets (enqueue m.this.mCudaStream accesses) m (fun _ t => Busy m t) fun _ _ => False := by
  rw [enqueue, meets_bind, modifyCuda, meets_modify, meets_bind, meets_get]
  have htouch : Quiet m { m with cuda := m.cuda.touch .stream m.this.mCudaStream } :=
    ⟨.touch _ _ _, rfl⟩
  split
  next =>
    have haccess : Quiet m { m with
        cuda := (m.cuda.touch .stream m.this.mCudaStream).accessAll accesses } :=
      ⟨(Within.touch _ _ _).trans (.accessAll _ _), rfl⟩
    exact busy_enqueue hm haccess
  next => exact htouch.busy

/-- A library works on the stream of the context. -/
theorem compute_busy (hm : ContextSound m) {part : Part} {handle : Option ℕ}
    (hb : BoundTo m part handle) :
    Meets (compute part handle) m (fun _ t => Busy m t) fun _ _ => False := by
  rw [compute, meets_bind, modifyCuda, meets_modify, meets_bind, meets_get]
  have htouch : Quiet m { m with cuda := m.cuda.touch part handle } := ⟨.touch _ _ _, rfl⟩
  split
  next h =>
    rw [meets_bind, modifyCuda, meets_modify]
    dsimp only
    rw [Cuda.streamOf_touch, hb (by simpa using h.1)]
    exact busy_enqueue hm htouch
  next => exact htouch.busy

/-- What ends with `waitIfSync` leaves a sound context. -/
theorem waitIfSync_sound (hm : ContextSound m) (hgpu : m.this.mOperationPlacement = .GPU)
    (h : Busy m t) :
    Meets waitIfSync t (fun _ u => ContextSound u ∧ OnOwn m u) fun _ _ => True := by
  have hmode : t.this.mRunMode = m.this.mRunMode := congrArg Streaming.mode h.streaming
  have hnot : m.this.mOperationPlacement ≠ .CPU := by
    rw [hgpu]
    exact nofun
  rw [waitIfSync, meets_bind, meets_get, meets_onlyIf, hmode]
  split
  next hsync =>
    rw [meets_bind, RunContext.getStream, meets_getMetadata]
    split
    next => trivial
    next =>
      apply (streamSynchronize_drained t).orRaises
      intro _ u hu
      have hbusy := h.trans hu.1.busy
      exact ⟨hm.busy hbusy fun _ => hu.2, hbusy.onOwn⟩
  next hasync =>
    refine ⟨hm.busy h ?_, h.onOwn⟩
    rintro (hsync | hcpu)
    · exact absurd hsync hasync
    · exact absurd hcpu hnot

theorem sound_return (hm : ContextSound m) : ContextSound m ∧ OnOwn m m := ⟨hm, .refl m⟩

/-- An operation on memory gives the stream one piece of work and waits if it has to. -/
theorem memory_sound (hm : ContextSound m) (operation : String) (accesses : List (Option ℕ × ℕ)) :
    Sound (do
      let m ← get
      onlyIf (m.this.mOperationPlacement = .CPU) (throw (.cpuOperation operation))
      let stream ← RunContext.getStream
      errorCheck (.cudaError .enqueue) (enqueue stream accesses)
      waitIfSync) m := by
  unfold Sound
  rw [meets_bind, meets_get, meets_bind, meets_onlyIf]
  split
  next => trivial
  next hgpu =>
    rw [meets_bind, RunContext.getStream, meets_getMetadata, if_neg hgpu, meets_bind,
      meets_errorCheck]
    apply (enqueue_busy hm accesses).returns
    intro b t ht
    split
    next => exact waitIfSync_sound hm (placement_of_ne_cpu hgpu) ht
    next => trivial

theorem memCpy_sound (hm : ContextSound m) (dst src : Option ℕ) (size : ℕ)
    (transfer : MemoryTransfer) : Sound (MemoryHandler.memCpy dst src size transfer) m := by
  unfold Sound
  rw [MemoryHandler.memCpy, meets_onlyIf]
  split
  next => exact memory_sound hm "Memcpy" _
  next => exact sound_return hm

theorem memset_sound (hm : ContextSound m) (dst : Option ℕ) (size : ℕ)
    (placement : OperationPlacement) : Sound (MemoryHandler.memset dst size placement) m := by
  unfold Sound
  rw [MemoryHandler.memset, meets_onlyIf]
  split
  next => exact memory_sound hm "Memset" _
  next => exact sound_return hm

/-- A kernel is waited for in either mode. -/
theorem launch_sound (hm : ContextSound m) (n : ℕ) (accesses : List (Option ℕ × ℕ)) :
    Sound (launch n accesses) m := by
  unfold Sound
  rw [launch, meets_bind, RunContext.getStream, meets_getMetadata]
  split
  next => trivial
  next hgpu =>
    have hwait (t : Member) (ht : Busy m t) :
        Meets RunContext.sync t (fun _ u => ContextSound u ∧ OnOwn m u) fun _ _ => True := by
      have hplacement : t.this.mOperationPlacement = m.this.mOperationPlacement :=
        congrArg Streaming.placement ht.streaming
      apply (sync_waits (hplacement.trans (placement_of_ne_cpu hgpu))).orRaises
      intro _ u hu
      have hbusy := ht.trans hu.1.busy
      exact ⟨hm.busy hbusy fun _ => hu.2, hbusy.onOwn⟩
    rw [meets_bind, meets_onlyIf]
    split
    next =>
      rw [meets_bind]
      exact (enqueue_busy hm accesses).returns fun _ t ht => hwait t ht
    next => exact hwait m (Quiet.refl m).busy

theorem gpuBlas_sound (hm : ContextSound m) (call : String) : Sound (gpuBlas call) m := by
  unfold Sound
  rw [gpuBlas, meets_bind, RunContext.getCuBlasDnHandle, meets_getMetadata]
  split
  next => trivial
  next hcpu =>
    have hgpu := placement_of_ne_cpu hcpu
    rw [meets_bind, meets_errorCheck]
    apply (compute_busy hm (hm.bound hgpu).2).returns
    intro b t ht
    split
    next => exact waitIfSync_sound hm hgpu ht
    next => trivial

theorem keeps_quiet_bufferSize (sh : Option ℕ) (m : Member) : Keeps (Quiet m) (bufferSize sh) :=
  (keeps_quiet_modifyCuda (fun cuda => .touch cuda _ _) m).bind fun _ =>
    keeps_get.bind fun _ => Keeps.pure _

theorem keeps_quiet_copyInfo (d_info : Option ℕ) (m : Member) :
    Keeps (Quiet m) (copyInfo d_info) :=
  (keeps_quiet_modifyCuda (fun cuda => .touch cuda _ _) m).bind fun _ =>
    keeps_get.bind fun _ => Keeps.pure _

theorem keeps_quiet_newMemory (part : Part) (size : ℕ) (e : GpuError) (m : Member) :
    Keeps (Quiet m) (newMemory part size e) := by
  have hnew : Keeps (Quiet m) (acquire part size fun _ c => c) :=
    keeps_quiet_acquire m fun _ _ => rfl
  exact keeps_get.bind fun _ => (keeps_errorCheck hnew e).bind fun _ => Keeps.pure _

/-- From the solver's call on. -/
theorem solver_sound {α : Type} (hm : ContextSound m) (call : String) {x : MemberM α}
    (hx : ∀ t, Keeps (Quiet t) x) (hgpu : m.this.mOperationPlacement = .GPU) :
    Sound (do
      errorCheck (.library "cuSOLVER" call) (compute .solver m.this.mCuSolverHandle)
      waitIfSync
      x) m := by
  unfold Sound
  rw [meets_bind, meets_errorCheck]
  apply (compute_busy hm (hm.bound hgpu).1).returns
  intro b t ht
  split
  next =>
    rw [meets_bind]
    apply (waitIfSync_sound hm hgpu ht).orRaises
    intro _ u hu
    exact (sound_of_quiet hu.1 (hx u)).imp fun _ _ hv => ⟨hv.1, hu.2.trans hv.2⟩
  next => trivial

theorem gpuSolve_sound (hm : ContextSound m) (call : String) (info : ℤ) :
    Sound (gpuSolve call info) m := by
  unfold Sound
  rw [gpuSolve, meets_bind, RunContext.getCusolverDnHandle, meets_getMetadata]
  split
  next => trivial
  next hgpu =>
    rw [meets_bind, RunContext.getInfoPointer, meets_getMetadata, if_neg hgpu]
    refine solver_sound hm call (fun t => ?_) (placement_of_ne_cpu hgpu)
    exact (keeps_errorCheck (keeps_quiet_copyInfo _ t) _).bind fun _ => Keeps.pure _

theorem gpuFactorize_sound (hm : ContextSound m) (call query : String) (lwork info : ℤ) :
    Sound (gpuFactorize call query lwork info) m := by
  unfold Sound
  rw [gpuFactorize, meets_bind, RunContext.getCusolverDnHandle, meets_getMetadata]
  split
  next => trivial
  next hgpu =>
    rw [meets_bind]
    have hquery := keeps_errorCheck (keeps_quiet_bufferSize m.this.mCuSolverHandle m)
      (.library "cuSOLVER" query)
    apply (hquery m (.refl m)).orRaises
    intro _ t ht
    have hwork : Keeps (Quiet m) (if 0 < lwork then newMemory .deviceBuffer (8 * lwork).toNat
        (.cudaError (.acquire .deviceBuffer)) else pure none) :=
      Keeps.ite (keeps_quiet_newMemory _ _ _ m) (Keeps.pure _)
    rw [meets_bind]
    apply (hwork t ht).orRaises
    intro d_work u hu
    have hplacement : u.this.mOperationPlacement = m.this.mOperationPlacement :=
      congrArg Streaming.placement hu.streaming
    have hsolver : u.this.mCuSolverHandle = m.this.mCuSolverHandle :=
      congrArg Streaming.solver hu.streaming
    rw [meets_bind, RunContext.getInfoPointer, meets_getMetadata, hplacement, if_neg hgpu,
      ← hsolver]
    refine (solver_sound (hm.quiet hu) call (fun v => ?_)
      (hplacement.trans (placement_of_ne_cpu hgpu))).mono (fun _ v hv => ?_) fun _ _ he => he
    · apply (keeps_errorCheck (keeps_quiet_cudaFree v) _).onlyIf.bind
      intro _
      exact (keeps_errorCheck (keeps_quiet_copyInfo _ v) _).bind fun _ => Keeps.pure _
    · exact ⟨hv.1, hu.onOwn.trans hv.2⟩

/-- Every operation that gives the device work. -/
theorem gpuOp_sound (hm : ContextSound m) (op : GpuOp) : Sound op.run m := by
  have hdone {x : MemberM ℤ} (hx : Sound x m) : Sound (do let _ ← x : MemberM Unit) m := by
    unfold Sound
    rw [meets_bind]
    exact hx
  cases op with
  | memCpy => exact memCpy_sound hm _ _ _ _
  | memset => exact memset_sound hm _ _ _
  | vectorAdd | vectorMultiply | copy => exact launch_sound hm _ _
  | dgemm | daxpy | dgemv | ddot | dnrm2 | dscal | dtrmm | dtrsm | dsyrk =>
    exact gpuBlas_sound hm _
  | dpotrf | dgetrf => exact hdone (gpuFactorize_sound hm _ _ _ _)
  | dgetrs | dpotrs => exact hdone (gpuSolve_sound hm _ _)

end

end RCompss.Kernels
