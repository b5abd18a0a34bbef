import RCompss.Kernels.RunContext

/-! The work buffers of a context over any run of its operations. -/
namespace RCompss.Kernels
open RCompss.Library

/-- Null, or a live allocation that is no smaller than recorded. -/
def Holds (cuda : Cuda) (part : Part) (p : Option ℕ) (size : ℕ) : Prop :=
  p = none ∨ ∃ n, cuda.size? part p = some n ∧ size ≤ n

/-- Both buffers are held, and none was freed twice. -/
structure BuffersHeld (m : Member) : Prop where
  device : Holds m.cuda .deviceBuffer m.this.mpWorkBufferDevice m.this.mWorkBufferSizeDevice
  host : Holds m.cuda .hostBuffer m.this.mpWorkBufferHost m.this.mWorkBufferSizeHost
  freedOnce : Part.deviceBuffer ∉ m.cuda.misuses ∧ Part.hostBuffer ∉ m.cuda.misuses

/-- What the operations rely on to hold the buffers. -/
structure MemorySound (m : Member) : Prop extends BuffersHeld m where
  info : Holds m.cuda .info m.this.mpInfo 0
  fresh : m.cuda.Fresh

theorem Holds.none_or_has {cuda : Cuda} {part : Part} {p : Option ℕ} {size : ℕ}
    (h : Holds cuda part p size) : p = none ∨ cuda.has part p = true := by
  rcases h with h | ⟨n, hn, -⟩
  · exact .inl h
  · exact .inr (Option.isSome_of_eq_some hn)

theorem Holds.alloc {cuda : Cuda} {part : Part} {p : Option ℕ} {size : ℕ} (hf : cuda.Fresh)
    (h : Holds cuda part p size) (part' : Part) (size' : ℕ) :
    Holds (cuda.alloc part' size') part p size := by
  rcases h with h | ⟨n, hn, hle⟩
  · exact .inl h
  · exact .inr ⟨n, hf.size?_alloc hn part' size', hle⟩

namespace Part

/-- Parts that are memory; the others are handles. -/
def isMemory : Part → Bool
  | .info | .deviceBuffer | .hostBuffer => true
  | .stream | .solver | .blas => false

end Part

/-- The members of a context that are not handles, but for its run mode. -/
structure Memory where
  info : Option ℕ
  device : Option ℕ
  sizeDevice : ℕ
  host : Option ℕ
  sizeHost : ℕ
  placement : OperationPlacement

def RunContext.memory (c : RunContext) : Memory :=
  ⟨c.mpInfo, c.mpWorkBufferDevice, c.mWorkBufferSizeDevice, c.mpWorkBufferHost,
    c.mWorkBufferSizeHost, c.mOperationPlacement⟩

/-- The same memory, whatever was done to stream and handles. -/
structure SameMemory (m t : Member) : Prop where
  memory : t.this.memory = m.this.memory
  parts : SameParts Part.isMemory m.cuda t.cuda

namespace SameMemory
variable {m t u : Member}

theorem trans (h : SameMemory m t) (h' : SameMemory t u) : SameMemory m u :=
  ⟨h'.memory.trans h.memory, h.parts.trans h'.parts⟩

theorem store {c : RunContext} (h : c.memory = m.this.memory) :
    SameMemory m { m with this := c } :=
  ⟨h, .refl _⟩

theorem touch {part : Part} (hpart : part.isMemory = false) (m : Member) (p : Option ℕ) :
    SameMemory m { m with cuda := m.cuda.touch part p } :=
  ⟨rfl, .touch hpart _ p⟩

theorem device {cuda : Cuda} (h : SameDevice m.cuda cuda) : SameMemory m { m with cuda } :=
  ⟨rfl, .device h⟩

theorem sound (h : SameMemory m t) (hm : MemorySound m) : MemorySound t := by
  have hinfo : t.this.mpInfo = m.this.mpInfo := congrArg Memory.info h.memory
  have hdevice : t.this.mpWorkBufferDevice = m.this.mpWorkBufferDevice :=
    congrArg Memory.device h.memory
  have hsize : t.this.mWorkBufferSizeDevice = m.this.mWorkBufferSizeDevice :=
    congrArg Memory.sizeDevice h.memory
  have hhost : t.this.mpWorkBufferHost = m.this.mpWorkBufferHost :=
    congrArg Memory.host h.memory
  have hsize' : t.this.mWorkBufferSizeHost = m.this.mWorkBufferSizeHost :=
    congrArg Memory.sizeHost h.memory
  refine ⟨⟨?_, ?_, h.parts.misuses _ rfl hm.freedOnce.1, h.parts.misuses _ rfl hm.freedOnce.2⟩,
    ?_, h.parts.fresh hm.fresh⟩
  · rw [Holds, hdevice, hsize, h.parts.size? _ rfl]
    exact hm.device
  · rw [Holds, hhost, hsize', h.parts.size? _ rfl]
    exact hm.host
  · rw [Holds, hinfo, h.parts.size? _ rfl]
    exact hm.info

end SameMemory

section
variable {m : Member}

theorem release_sameMemory {part : Part} (hpart : part.isMemory = false) (p : Option ℕ) :
    Meets (release part p) m (fun _ t => SameMemory m t) fun _ _ => False :=
  (release_sameParts hpart p m).mono
    (fun _ _ ht => ⟨congrArg RunContext.memory ht.1, ht.2.1⟩) fun _ _ he => he

theorem destroyHandles_sameMemory :
    Meets RunContext.destroyHandles m (fun _ t => SameMemory m t) fun _ _ => False := by
  rw [RunContext.destroyHandles, meets_bind, meets_get, meets_bind]
  refine (release_sameMemory rfl _).mono (fun _ t ht => ?_) fun _ _ h => h
  rw [meets_bind]
  refine (release_sameMemory rfl _).mono (fun _ u hu => ?_) fun _ _ h => h
  rw [meets_bind]
  refine (release_sameMemory rfl _).mono (fun _ v hv => ?_) fun _ _ h => h
  exact (ht.trans hu).trans hv

theorem synced_sameMemory (m : Member) : SameMemory m (RunContext.synced m) :=
  SameMemory.touch rfl m _

theorem drained_sameMemory (m : Member) :
    SameMemory m (RunContext.drained (RunContext.synced m)) :=
  (synced_sameMemory m).trans (.device (.drain _ _))

theorem keeps_sync : Keeps MemorySound RunContext.sync := by
  intro m hm
  rw [RunContext.meets_sync]
  split
  · split
    · exact (synced_sameMemory m).sound hm
    · exact (drained_sameMemory m).sound hm
  · exact hm

theorem MemorySound.alloc (hm : MemorySound m) (part : Part) (size : ℕ) :
    MemorySound { m with cuda := m.cuda.alloc part size } :=
  ⟨⟨hm.device.alloc hm.fresh _ _, hm.host.alloc hm.fresh _ _, hm.freedOnce⟩,
    hm.info.alloc hm.fresh _ _, hm.fresh.alloc _ _⟩

/-- A handle stored in a member that is not memory. -/
theorem keeps_acquire_handle {part : Part} {store : Option ℕ → RunContext → RunContext}
    (hstore : ∀ h c, (store h c).memory = c.memory) :
    Keeps MemorySound (acquire part 0 store) := by
  intro m hm
  rw [meets_acquire]
  split
  · exact hm
  · have hsame : SameMemory { m with cuda := m.cuda.alloc part 0 }
        ⟨store (some m.cuda.next) m.this, m.cuda.alloc part 0⟩ := SameMemory.store (hstore _ _)
    exact hsame.sound (hm.alloc part 0)

theorem keeps_equip : Keeps MemorySound RunContext.equip := by
  have hstream : Keeps MemorySound (acquire .stream 0 fun h c => { c with mCudaStream := h }) :=
    keeps_acquire_handle fun _ _ => rfl
  have hsolver : Keeps MemorySound
      (acquire .solver 0 fun h c => { c with mCuSolverHandle := h }) :=
    keeps_acquire_handle fun _ _ => rfl
  have hblas : Keeps MemorySound (acquire .blas 0 fun h c => { c with mCuBlasHandle := h }) :=
    keeps_acquire_handle fun _ _ => rfl
  have hinfo : Keeps MemorySound (acquire .info 4 fun p c => { c with mpInfo := p }) := by
    intro m hm
    have halloc := hm.alloc .info 4
    rw [meets_acquire]
    split
    · exact hm
    · exact ⟨⟨halloc.device, halloc.host, halloc.freedOnce⟩,
        .inr ⟨4, Cuda.size?_alloc_self _ _, Nat.zero_le _⟩, halloc.fresh⟩
  have hset {part : Part} (hpart : part.isMemory = false) (handle : RunContext → Option ℕ) :
      Keeps MemorySound (RunContext.setStream part handle) :=
    keeps_modify fun m hm =>
      have htouched := (SameMemory.touch hpart m (handle m.this)).trans
        (.touch rfl _ m.this.mCudaStream)
      (htouched.trans (.device (.bindStream _ part (handle m.this) m.this.mCudaStream))).sound hm
  exact (keeps_errorCheck hstream _).bind fun _ => hsolver.bind fun _ =>
    (hset rfl _).bind fun _ => hblas.bind fun _ => (hset rfl _).bind fun _ =>
      keeps_errorCheck hinfo _

end

namespace Member
variable (m : Member)

def syncs : Prop := m.cuda.failing .synchronize = false

/-- `FreeWorkBufferDevice` gets to a buffer and frees it. -/
def freesDevice : Prop :=
  m.this.mOperationPlacement = .GPU ∧ m.this.mpWorkBufferDevice ≠ none ∧ m.syncs ∧
    m.cuda.failing (.release .deviceBuffer) = false

def freesHost : Prop :=
  m.this.mOperationPlacement = .GPU ∧ m.this.mpWorkBufferHost ≠ none ∧ m.syncs

/-- A larger buffer is asked for; the old one is freed and the new one is not there. -/
def losesDevice (size : ℕ) : Prop :=
  m.this.mOperationPlacement = .GPU ∧ m.this.mWorkBufferSizeDevice < size ∧
    m.this.mpWorkBufferDevice ≠ none ∧ m.cuda.failing (.release .deviceBuffer) = false ∧
      m.cuda.failing (.acquire .deviceBuffer) = true

def losesHost (size : ℕ) : Prop :=
  m.this.mOperationPlacement = .GPU ∧ m.this.mWorkBufferSizeHost < size ∧
    m.this.mpWorkBufferHost ≠ none ∧ m.cuda.failing (.acquire .hostBuffer) = true

/-- `ClearUp` frees a buffer and then stops at the info word. -/
def clearsHalfway : Prop :=
  m.this.mOperationPlacement = .GPU ∧
    (m.this.mpWorkBufferDevice ≠ none ∨ m.this.mpWorkBufferHost ≠ none) ∧ m.syncs ∧
      (m.this.mpWorkBufferDevice = none ∨ m.cuda.failing (.release .deviceBuffer) = false) ∧
        m.this.mpInfo ≠ none ∧ m.cuda.failing (.release .info) = true

end Member

/-- No call on `m` frees a buffer and keeps the pointer. -/
def ContextOp.keepsBuffers (m : Member) : ContextOp → Prop
  | setOperationPlacement .GPU => ¬ m.freesDevice
  | setOperationPlacement .CPU => ¬ m.clearsHalfway
  | requestWorkBufferDevice size => ¬ m.losesDevice size
  | requestWorkBufferHost size => ¬ m.losesHost size
  | freeWorkBufferDevice => ¬ m.freesDevice
  | freeWorkBufferHost => ¬ m.freesHost
  | finalizeRunContext => ¬ (m.freesHost ∧ m.cuda.tick.failing .synchronize = false)
  | _ => True

section
variable {m : Member}

theorem freeWorkBufferDevice_sound (hm : MemorySound m) (h : ¬ m.freesDevice) :
    Meets RunContext.freeWorkBufferDevice m (fun _ t => MemorySound t)
      fun _ t => MemorySound t := by
  have hsame := drained_sameMemory m
  have hsynced := hsame.sound hm
  rw [RunContext.freeWorkBufferDevice, meets_bind, meets_get, meets_onlyIf]
  split
  next hgpu =>
    rw [meets_bind, RunContext.meets_sync, if_pos hgpu]
    split
    next => exact (synced_sameMemory m).sound hm
    next hsync =>
      have hdevice : m.this.mpWorkBufferDevice = none ∨
          (RunContext.drained (RunContext.synced m)).cuda.has .deviceBuffer
            m.this.mpWorkBufferDevice = true :=
        hsynced.device.none_or_has
      rw [meets_errorCheck, meets_cudaFree hdevice, hsame.parts.failing]
      split
      next => exact hsynced
      next hfree =>
        have hnone : m.this.mpWorkBufferDevice = none := by
          by_contra hp
          exact h ⟨hgpu, hp, Bool.eq_false_iff.mpr hsync, by simpa [hp] using hfree⟩
        rw [hnone, Cuda.kill_none]
        exact hsynced
  next => exact hm

theorem freeWorkBufferHost_sound (hm : MemorySound m) (h : ¬ m.freesHost) :
    Meets RunContext.freeWorkBufferHost m (fun _ t => MemorySound t)
      fun _ t => MemorySound t := by
  have hsynced := (drained_sameMemory m).sound hm
  rw [RunContext.freeWorkBufferHost, meets_bind, meets_get, meets_onlyIf]
  split
  next hgpu =>
    rw [meets_bind, RunContext.meets_sync, if_pos hgpu]
    split
    next => exact (synced_sameMemory m).sound hm
    next hsync =>
      have hnone : m.this.mpWorkBufferHost = none := by
        by_contra hp
        exact h ⟨hgpu, hp, Bool.eq_false_iff.mpr hsync⟩
      rw [meets_onlyIf, if_neg (not_not.mpr hnone)]
      exact hsynced
  next => exact hm

/-- What is left of soundness once the buffers are freed and not yet forgotten. -/
structure MemoryFreed (m : Member) : Prop where
  freedOnce : Part.deviceBuffer ∉ m.cuda.misuses ∧ Part.hostBuffer ∉ m.cuda.misuses
  fresh : m.cuda.Fresh

theorem meets_deleteHost {p : Option ℕ} (h : p = none ∨ m.cuda.has .hostBuffer p = true)
    {Q : Unit → Member → Prop} {E : GpuError → Member → Prop} :
    Meets (onlyIf (p ≠ none) (deleteHost p)) m Q E ↔
      Q () { m with cuda := m.cuda.kill .hostBuffer p } := by
  rw [meets_onlyIf, deleteHost, modifyCuda, meets_modify]
  rcases h with rfl | h
  · rfl
  · have hp : p ≠ none := by
      rintro rfl
      contradiction
    rw [if_pos hp, Cuda.touch_of_has h]

/-- Killing a buffer does not touch memory of another kind. -/
theorem Holds.kill {cuda : Cuda} {part part' : Part} {p q : Option ℕ} {size : ℕ}
    (h : Holds cuda part p size) (hne : part ≠ part') : Holds (cuda.kill part' q) part p size := by
  rw [Holds, Cuda.size?_kill hne]
  exact h

theorem clearUp_sound (hm : MemorySound m) (h : ¬ m.clearsHalfway) :
    Meets RunContext.clearUp m (fun _ t => MemorySound t) fun _ t => MemorySound t := by
  have hforget (t : Member) (ht : MemoryFreed t) : MemorySound { t with this := { t.this with
      mpInfo := none, mWorkBufferSizeDevice := 0, mpWorkBufferDevice := none,
      mWorkBufferSizeHost := 0, mpWorkBufferHost := none } } :=
    ⟨⟨.inl rfl, .inl rfl, ht.freedOnce⟩, .inl rfl, ht.fresh⟩
  have hsame := drained_sameMemory m
  have hsynced := hsame.sound hm
  rw [RunContext.clearUp, meets_bind, meets_get, meets_bind, meets_onlyIf]
  split
  next hgpu =>
    rw [meets_bind, RunContext.meets_sync, if_pos hgpu]
    split
    next => exact (synced_sameMemory m).sound hm
    next hsync =>
      have hdevice : m.this.mpWorkBufferDevice = none ∨
          (RunContext.drained (RunContext.synced m)).cuda.has .deviceBuffer
            m.this.mpWorkBufferDevice = true :=
        hsynced.device.none_or_has
      rw [meets_bind, meets_errorCheck, meets_cudaFree hdevice, hsame.parts.failing]
      split
      next => exact hsynced
      next hfree =>
        have hhost := (hsynced.host.kill (q := m.this.mpWorkBufferDevice)
          (show Part.hostBuffer ≠ .deviceBuffer by decide)).none_or_has
        rw [if_pos rfl, meets_bind, meets_deleteHost hhost, meets_bind]
        apply destroyHandles_sameMemory.returns
        intro _ t ht
        have hinfo : Holds t.cuda .info m.this.mpInfo 0 := by
          rw [Holds, ht.parts.size? _ rfl]
          exact (hsynced.info.kill (by decide)).kill (by decide)
        rw [meets_errorCheck, meets_cudaFree hinfo.none_or_has, ht.parts.failing, Cuda.failing_kill,
          Cuda.failing_kill, hsame.parts.failing]
        split
        next hlast =>
          have hnone : m.this.mpWorkBufferDevice = none ∧ m.this.mpWorkBufferHost = none := by
            by_contra hp
            refine h ⟨hgpu, not_and_or.mp hp, Bool.eq_false_iff.mpr hsync, ?_, hlast⟩
            by_contra hdevice
            rw [not_or, Bool.not_eq_false] at hdevice
            exact hfree hdevice
          rw [hnone.1, hnone.2] at ht
          exact ht.sound hsynced
        next =>
          refine hforget _ ⟨?_, (ht.parts.fresh ((hsynced.fresh.kill _ _).kill _ _)).kill _ _⟩
          simp only [Cuda.misuses_kill]
          constructor
          · exact ht.parts.misuses _ rfl (by simpa using hsynced.freedOnce.1)
          · exact ht.parts.misuses _ rfl (by simpa using hsynced.freedOnce.2)
  next =>
    exact hforget m ⟨hm.freedOnce, hm.fresh⟩

theorem requestWorkBufferDevice_sound (hm : MemorySound m) {n : ℕ} (h : ¬ m.losesDevice n) :
    Meets (RunContext.requestWorkBufferDevice n) m
      (fun p t => MemorySound t ∧ p = t.this.mpWorkBufferDevice) fun _ t => MemorySound t := by
  rw [RunContext.requestWorkBufferDevice, meets_bind, meets_get]
  split
  next => exact ⟨hm, rfl⟩
  next =>
    split
    next => exact hm
    next hcpu =>
      rw [meets_bind, meets_onlyIf]
      split
      next hgrow =>
        rw [meets_bind, meets_errorCheck, meets_cudaFree hm.device.none_or_has]
        split
        next => exact hm
        next hfree =>
          rw [if_pos rfl, meets_bind, modifyThis, meets_modify, meets_errorCheck, meets_acquire]
          have hkill := hm.fresh.kill .deviceBuffer m.this.mpWorkBufferDevice
          have hhost := hm.host.kill (q := m.this.mpWorkBufferDevice)
            (show Part.hostBuffer ≠ .deviceBuffer by decide)
          have hinfo := hm.info.kill (q := m.this.mpWorkBufferDevice)
            (show Part.info ≠ .deviceBuffer by decide)
          have honce := hm.freedOnce
          rw [← m.cuda.misuses_kill .deviceBuffer m.this.mpWorkBufferDevice] at honce
          rw [Cuda.failing_kill]
          split
          next hnew =>
            -- the old buffer is gone only if there was none
            have hnone : m.this.mpWorkBufferDevice = none := by
              by_contra hp
              exact h ⟨placement_of_ne_cpu hcpu, hgrow, hp, by simpa [hp] using hfree, hnew⟩
            exact ⟨⟨.inl hnone, hhost, honce⟩, hinfo, hkill⟩
          next =>
            refine ⟨⟨⟨.inr ⟨n, Cuda.size?_alloc_self _ _, le_rfl⟩, ?_, honce⟩, ?_, ?_⟩, rfl⟩
            · exact hhost.alloc hkill _ _
            · exact hinfo.alloc hkill _ _
            · exact hkill.alloc _ _
      next => exact ⟨hm, rfl⟩

theorem requestWorkBufferHost_sound (hm : MemorySound m) {n : ℕ} (h : ¬ m.losesHost n) :
    Meets (RunContext.requestWorkBufferHost n) m
      (fun p t => MemorySound t ∧ p = t.this.mpWorkBufferHost) fun _ t => MemorySound t := by
  rw [RunContext.requestWorkBufferHost, meets_bind, meets_get]
  split
  next => exact ⟨hm, rfl⟩
  next =>
    split
    next => exact hm
    next hcpu =>
      rw [meets_bind, meets_onlyIf]
      split
      next hgrow =>
        rw [meets_bind, meets_deleteHost hm.host.none_or_has, meets_bind, modifyThis,
          meets_modify, meets_errorCheck, meets_acquire]
        have hkill := hm.fresh.kill .hostBuffer m.this.mpWorkBufferHost
        have hdevice := hm.device.kill (q := m.this.mpWorkBufferHost)
          (show Part.deviceBuffer ≠ .hostBuffer by decide)
        have hinfo := hm.info.kill (q := m.this.mpWorkBufferHost)
          (show Part.info ≠ .hostBuffer by decide)
        have honce := hm.freedOnce
        rw [← m.cuda.misuses_kill .hostBuffer m.this.mpWorkBufferHost] at honce
        rw [Cuda.failing_kill]
        split
        next hnew =>
          have hnone : m.this.mpWorkBufferHost = none := by
            by_contra hp
            exact h ⟨placement_of_ne_cpu hcpu, hgrow, hp, hnew⟩
          exact ⟨⟨hdevice, .inl hnone, honce⟩, hinfo, hkill⟩
        next =>
          refine ⟨⟨⟨?_, .inr ⟨n, Cuda.size?_alloc_self _ _, le_rfl⟩, honce⟩, ?_, ?_⟩, rfl⟩
          · exact hdevice.alloc hkill _ _
          · exact hinfo.alloc hkill _ _
          · exact hkill.alloc _ _
      next => exact ⟨hm, rfl⟩

theorem setOperationPlacement_sound (hm : MemorySound m) (p : OperationPlacement)
    (h : (ContextOp.setOperationPlacement p).keepsBuffers m) :
    Meets (RunContext.setOperationPlacement p) m (fun _ t => MemorySound t)
      fun _ t => MemorySound t := by
  rw [RunContext.setOperationPlacement, meets_bind, meets_get]
  split
  next hgpu =>
    obtain ⟨-, rfl⟩ := hgpu
    exact freeWorkBufferDevice_sound hm h
  next hother =>
    have hclear : ¬ m.clearsHalfway := by
      cases p with
      | CPU => exact h
      | GPU => exact fun hc => hother ⟨hc.1, rfl⟩
    rw [meets_bind]
    apply (clearUp_sound hm hclear).imp
    intro _ t ht
    rw [meets_bind, modifyThis, meets_modify, meets_onlyIf]
    have hplaced : MemorySound { t with this := { t.this with mOperationPlacement := p } } :=
      ⟨⟨ht.device, ht.host, ht.freedOnce⟩, ht.info, ht.fresh⟩
    split
    next => exact keeps_equip _ hplaced
    next => exact hplaced

theorem keeps_setRunMode (mode : RunMode) :
    Keeps MemorySound (RunContext.setRunMode mode) := by
  intro m hm
  rw [RunContext.setRunMode, meets_bind, meets_get, meets_bind, meets_onlyIf]
  have hstore (t : Member) (ht : MemorySound t) :
      MemorySound { t with this := { t.this with mRunMode := mode } } :=
    ⟨⟨ht.device, ht.host, ht.freedOnce⟩, ht.info, ht.fresh⟩
  split
  next => exact (keeps_sync m hm).imp fun _ t ht => hstore t ht
  next => exact hstore m hm

theorem MemorySound.tick (hm : MemorySound m) : MemorySound m.tick :=
  ⟨⟨hm.device, hm.host, hm.freedOnce⟩, hm.info, hm.fresh⟩

/-- One call keeps the memory sound. -/
theorem run_sound (hm : MemorySound m) (op : ContextOp) (h : op.keepsBuffers m) :
    Meets op.run m (fun _ t => MemorySound t) fun _ t => MemorySound t := by
  cases op with
  | setOperationPlacement p =>
    rw [ContextOp.run, meets_bind]
    exact setOperationPlacement_sound hm p h
  | setRunMode mode => exact (keeps_setRunMode mode).bind (fun _ => Keeps.pure none) m hm
  | sync => exact keeps_sync.bind (fun _ => Keeps.pure none) m hm
  | getStream | getCusolverDnHandle | getCuBlasDnHandle | getInfoPointer =>
    exact RunContext.keeps_getMetadata _ m hm
  | requestWorkBufferDevice n =>
    exact (requestWorkBufferDevice_sound hm h).imp fun _ _ ht => ht.1
  | requestWorkBufferHost n =>
    exact (requestWorkBufferHost_sound hm h).imp fun _ _ ht => ht.1
  | freeWorkBufferDevice =>
    rw [ContextOp.run, meets_bind]
    exact freeWorkBufferDevice_sound hm h
  | freeWorkBufferHost =>
    rw [ContextOp.run, meets_bind]
    exact freeWorkBufferHost_sound hm h
  | finalizeRunContext =>
    rw [ContextOp.run, meets_bind, RunContext.meets_sync]
    have hsynced := (drained_sameMemory m).sound hm
    have hlater : (RunContext.synced m).cuda.tick.failing .synchronize =
        m.cuda.tick.failing .synchronize := by
      simp only [RunContext.synced, Cuda.touch]
      split <;> rfl
    split
    next hgpu =>
      split
      next => exact (synced_sameMemory m).sound hm
      next hsync =>
        rw [meets_bind, modifyCuda, meets_modify, meets_bind]
        refine freeWorkBufferHost_sound hsynced.tick fun hfree => ?_
        refine h ⟨⟨hgpu, hfree.2.1, Bool.eq_false_iff.mpr hsync⟩, ?_⟩
        rw [← hlater]
        exact hfree.2.2
    next hcpu =>
      rw [meets_bind, modifyCuda, meets_modify, meets_bind]
      exact freeWorkBufferHost_sound hm.tick fun hfree => hcpu hfree.1

theorem step_sound (hm : MemorySound m) (op : ContextOp) (h : op.keepsBuffers m) :
    MemorySound (op.step m) :=
  (run_sound hm op h).state.tick

theorem construct_sound (p : OperationPlacement) (mode : RunMode) (fails : ℕ → Call → Bool) :
    Meets (RunContext.construct p mode) ⟨.raw, .fresh fails⟩ (fun _ t => MemorySound t)
      fun _ _ => True := by
  have hraw : MemorySound ⟨.raw, .fresh fails⟩ :=
    ⟨⟨.inl rfl, .inl rfl, List.not_mem_nil, List.not_mem_nil⟩, .inl rfl, fun _ _ => rfl⟩
  have hstore (t : Member) (ht : MemorySound t) : MemorySound { t with this := { t.this with
      mWorkBufferSizeHost := 0, mpWorkBufferHost := none, mWorkBufferSizeDevice := 0,
      mpWorkBufferDevice := none, mOperationPlacement := p, mRunMode := mode } } :=
    ⟨⟨.inl rfl, .inl rfl, ht.freedOnce⟩, ht.info, ht.fresh⟩
  rw [RunContext.construct, meets_bind, modifyThis, meets_modify, meets_bind, meets_onlyIf]
  split
  next => exact (keeps_equip _ hraw).orRaises fun _ t ht => hstore t ht
  next => exact hstore ⟨.raw, .fresh fails⟩ hraw

/-- The destructor frees each buffer at most once. -/
theorem destroy_freedOnce (hm : MemorySound m) :
    Meets RunContext.destroy m
      (fun _ t => Part.deviceBuffer ∉ t.cuda.misuses ∧ Part.hostBuffer ∉ t.cuda.misuses)
      fun _ _ => False := by
  have hrest (t : Member) (this : RunContext) (honce : Part.deviceBuffer ∉ t.cuda.misuses ∧
      Part.hostBuffer ∉ t.cuda.misuses) (hhost : this.mpWorkBufferHost = none ∨
      t.cuda.has .hostBuffer this.mpWorkBufferHost = true)
      (hinfo : Holds t.cuda .info this.mpInfo 0) :
      Meets (do
        onlyIf (this.mpWorkBufferHost ≠ none) (deleteHost this.mpWorkBufferHost)
        onlyIf (this.mOperationPlacement = .GPU) do
          RunContext.destroyHandles
          let _ ← cudaFree .info this.mpInfo) t
        (fun _ t => Part.deviceBuffer ∉ t.cuda.misuses ∧ Part.hostBuffer ∉ t.cuda.misuses)
        fun _ _ => False := by
    rw [meets_bind, meets_deleteHost hhost, meets_onlyIf]
    rw [← t.cuda.misuses_kill .hostBuffer this.mpWorkBufferHost] at honce
    split
    next =>
      rw [meets_bind]
      apply destroyHandles_sameMemory.imp
      intro _ u hu
      have hinfo' : Holds u.cuda .info this.mpInfo 0 := by
        rw [Holds, hu.parts.size? _ rfl]
        exact hinfo.kill (by decide)
      rw [meets_bind, meets_cudaFree hinfo'.none_or_has]
      have honce' := And.intro (hu.parts.misuses _ rfl honce.1) (hu.parts.misuses _ rfl honce.2)
      split
      next => exact honce'
      next => simpa using honce'
    next => exact honce
  have hsync : Meets (tryCatch RunContext.sync fun _ => pure ()) m (fun _ t => MemorySound t)
      fun _ _ => False := by
    rw [meets_tryCatch]
    exact (keeps_sync m hm).mono (fun _ _ ht => ht) fun _ _ ht => ht
  rw [RunContext.destroy, meets_bind]
  apply hsync.imp
  intro _ t ht
  rw [meets_bind, meets_get, meets_bind, meets_cudaFree ht.device.none_or_has]
  split
  next => exact hrest t t.this ht.freedOnce ht.host.none_or_has ht.info
  next =>
    refine hrest _ t.this (by simpa using ht.freedOnce) ?_ (ht.info.kill (by decide))
    exact (ht.host.kill (by decide)).none_or_has

/-- In every run without the calls that free a buffer and keep its pointer, the work buffers
are held after every call, a request returns no freed buffer, and the destructor frees
nothing again. -/
theorem work_buffers_held (p : OperationPlacement) (mode : RunMode) (fails : ℕ → Call → Bool)
    {start m : Member}
    (hnew : exec (RunContext.construct p mode) ⟨.raw, .fresh fails⟩ = (.ok (), start))
    (h : Reached ContextOp.step (fun m op => op.keepsBuffers m) start.tick m) :
    BuffersHeld m ∧
      (∀ n, ¬ m.losesDevice n → Meets (RunContext.requestWorkBufferDevice n) m
        (fun q t => q = none ∨ t.cuda.has .deviceBuffer q = true) fun _ _ => True) ∧
      (∀ n, ¬ m.losesHost n → Meets (RunContext.requestWorkBufferHost n) m
        (fun q t => q = none ∨ t.cuda.has .hostBuffer q = true) fun _ _ => True) ∧
      Meets RunContext.destroy m
        (fun _ t => Part.deviceBuffer ∉ t.cuda.misuses ∧ Part.hostBuffer ∉ t.cuda.misuses)
        fun _ _ => False := by
  have hstart : MemorySound start := by
    have hconstruct := construct_sound p mode fails
    rw [Meets, hnew] at hconstruct
    exact hconstruct
  have hm : MemorySound m := h.keeps hstart.tick fun _ op ht hok => step_sound ht op hok
  refine ⟨hm.toBuffersHeld, fun n hn => ?_, fun n hn => ?_, destroy_freedOnce hm⟩
  · apply (requestWorkBufferDevice_sound hm hn).orRaises
    intro q t ht
    rw [ht.2]
    exact ht.1.device.none_or_has
  · apply (requestWorkBufferHost_sound hm hn).orRaises
    intro q t ht
    rw [ht.2]
    exact ht.1.host.none_or_has

/-- A new GPU context, on a device where nothing fails. -/
def newGpuContext : Except GpuError Unit × Member :=
  exec (RunContext.construct .GPU .SYNC) ⟨.raw, .fresh fun _ _ => false⟩

def gpuContext : Member := newGpuContext.2.tick

/-- The first buffer asked for is held. -/
theorem first_buffer_held :
    BuffersHeld ((ContextOp.requestWorkBufferDevice 8).step gpuContext) := by
  have hnew : newGpuContext = (.ok (), newGpuContext.2) := Prod.ext rfl rfl
  have hnull : (ContextOp.requestWorkBufferDevice 8).keepsBuffers gpuContext :=
    fun h => h.2.2.1 rfl
  exact (work_buffers_held .GPU .SYNC _ hnew
    (.next (ContextOp.requestWorkBufferDevice 8) .start hnull)).1

/-- Eight bytes asked for and freed. -/
def freedContext : Member :=
  ContextOp.freeWorkBufferDevice.step ((ContextOp.requestWorkBufferDevice 8).step gpuContext)

/-- The pointer to the freed buffer stays, and the recorded size with it. -/
theorem freed_buffer_kept : ¬ ∀ m, Reached ContextOp.step anyStep gpuContext m →
    BuffersHeld m := by
  intro h
  have hrun : Reached ContextOp.step anyStep gpuContext freedContext :=
    .next ContextOp.freeWorkBufferDevice
      (.next (ContextOp.requestWorkBufferDevice 8) .start trivial) trivial
  have hheld := h freedContext hrun
  rcases hheld.device with hnone | ⟨n, hsize, -⟩
  · exact absurd hnone (by decide)
  · have hfreed : (freedContext.cuda.size? .deviceBuffer freedContext.this.mpWorkBufferDevice) =
        none := by decide
    exact absurd (hfreed.symm.trans hsize) nofun

end
end RCompss.Kernels
