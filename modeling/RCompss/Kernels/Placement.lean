import RCompss.Kernels.RunContext

/-! The placement a context reports, and the stream, handles and info word it has. -/
namespace RCompss.Kernels
open RCompss.Library

namespace Part

/-- What a GPU context needs; work buffers are the rest. -/
def isEquipment : Part → Bool
  | .stream | .solver | .blas | .info => true
  | .deviceBuffer | .hostBuffer => false

end Part

/-- Stream, both handles and the info word are there. -/
structure Equipped (m : Member) : Prop where
  stream : m.cuda.has .stream m.this.mCudaStream = true
  solver : m.cuda.has .solver m.this.mCuSolverHandle = true
  blas : m.cuda.has .blas m.this.mCuBlasHandle = true
  info : m.cuda.has .info m.this.mpInfo = true

/-- GPU placement is reported only by an equipped context. -/
def ReportsTruly (m : Member) : Prop := m.this.mOperationPlacement = .GPU → Equipped m

/-- No part of the equipment was used or released where there was none. -/
def EquipmentUsed (m : Member) : Prop := ∀ part, part.isEquipment = true → part ∉ m.cuda.misuses

structure PlacementSound (m : Member) : Prop where
  truly : ReportsTruly m
  used : EquipmentUsed m
  fresh : m.cuda.Fresh

/-- The members that are equipment, and the placement. -/
structure Equipment where
  stream : Option ℕ
  solver : Option ℕ
  blas : Option ℕ
  info : Option ℕ
  placement : OperationPlacement

def RunContext.equipment (c : RunContext) : Equipment :=
  ⟨c.mCudaStream, c.mCuSolverHandle, c.mCuBlasHandle, c.mpInfo, c.mOperationPlacement⟩

/-- The same equipment, whatever was done to the buffers. -/
structure SameEquipment (m t : Member) : Prop where
  equipment : t.this.equipment = m.this.equipment
  parts : SameParts Part.isEquipment m.cuda t.cuda

namespace SameEquipment
variable {m t u : Member}

theorem trans (h : SameEquipment m t) (h' : SameEquipment t u) : SameEquipment m u :=
  ⟨h'.equipment.trans h.equipment, h.parts.trans h'.parts⟩

theorem store {c : RunContext} (h : c.equipment = m.this.equipment) :
    SameEquipment m { m with this := c } :=
  ⟨h, .refl _⟩

theorem sound (h : SameEquipment m t) (hm : PlacementSound m) : PlacementSound t := by
  have hplacement : t.this.mOperationPlacement = m.this.mOperationPlacement :=
    congrArg Equipment.placement h.equipment
  have hstream : t.this.mCudaStream = m.this.mCudaStream :=
    congrArg Equipment.stream h.equipment
  have hsolver : t.this.mCuSolverHandle = m.this.mCuSolverHandle :=
    congrArg Equipment.solver h.equipment
  have hblas : t.this.mCuBlasHandle = m.this.mCuBlasHandle :=
    congrArg Equipment.blas h.equipment
  have hinfo : t.this.mpInfo = m.this.mpInfo := congrArg Equipment.info h.equipment
  refine ⟨fun hgpu => ?_, fun part hp => h.parts.misuses part hp (hm.used part hp),
    h.parts.fresh hm.fresh⟩
  have hequipped := hm.truly (hplacement.symm.trans hgpu)
  constructor
  · rw [hstream, h.parts.has rfl]
    exact hequipped.stream
  · rw [hsolver, h.parts.has rfl]
    exact hequipped.solver
  · rw [hblas, h.parts.has rfl]
    exact hequipped.blas
  · rw [hinfo, h.parts.has rfl]
    exact hequipped.info

end SameEquipment

namespace Member
variable (m : Member)

/-- `cudaFree` of the device buffer goes through. -/
def freesBuffer : Prop :=
  m.this.mpWorkBufferDevice = none ∨
    m.cuda.has .deviceBuffer m.this.mpWorkBufferDevice = true ∧
      m.cuda.failing (.release .deviceBuffer) = false

/-- A change to GPU, with the field already set, misses a part. -/
def equipsHalfway : Prop :=
  m.this.mOperationPlacement = .CPU ∧
    ∃ part, part.isEquipment = true ∧ m.cuda.failing (.acquire part) = true

/-- A change to CPU stops at the info word, with stream or handles destroyed. -/
def stripsHalfway : Prop :=
  m.this.mOperationPlacement = .GPU ∧ m.cuda.failing .synchronize = false ∧ m.freesBuffer ∧
    m.cuda.failing (.release .info) = true ∧
      ∃ part ∈ [Part.stream, .solver, .blas], m.cuda.failing (.release part) = false

end Member

/-- No call on `m` changes the placement halfway. -/
def ContextOp.keepsPlacement (m : Member) : ContextOp → Prop
  | setOperationPlacement .GPU => ¬ m.equipsHalfway
  | setOperationPlacement .CPU => ¬ m.stripsHalfway
  | _ => True

section
variable {m : Member}

/-- Using the stream of an equipped context leaves no trace. -/
theorem synced_eq (hm : PlacementSound m) (hgpu : m.this.mOperationPlacement = .GPU) :
    RunContext.synced m = m := by
  rw [RunContext.synced, Cuda.touch_of_has (hm.truly hgpu).stream]

theorem sync_sound (hm : PlacementSound m) :
    Meets RunContext.sync m
      (fun _ t => t.this = m.this ∧ SameDevice m.cuda t.cuda ∧
        (m.this.mOperationPlacement = .GPU → m.cuda.failing .synchronize = false))
      fun _ t => t = m := by
  rw [RunContext.meets_sync]
  split
  next hgpu =>
    rw [synced_eq hm hgpu]
    split
    next => rfl
    next hsync => exact ⟨rfl, .drain _ _, fun _ => Bool.eq_false_iff.mpr hsync⟩
  next hcpu => exact ⟨rfl, ⟨rfl, rfl, rfl, fun _ => rfl⟩, fun hgpu => absurd hgpu hcpu⟩

theorem keeps_sync_placed : Keeps PlacementSound RunContext.sync := by
  intro m hm
  refine (sync_sound hm).mono (fun _ t ht => ?_) fun _ t ht => ?_
  · have hsame : SameEquipment m t := ⟨congrArg RunContext.equipment ht.1, .device ht.2.1⟩
    exact hsame.sound hm
  · rw [ht]
    exact hm

/-- Freeing a device buffer, whether it is there or not. -/
theorem cudaFree_device (p : Option ℕ) (m : Member) :
    Meets (cudaFree .deviceBuffer p) m
      (fun b t => SameEquipment m t ∧ (b = true → p = none ∨
        m.cuda.has .deviceBuffer p = true ∧ m.cuda.failing (.release .deviceBuffer) = false))
      fun _ _ => False := by
  unfold cudaFree
  split
  next h => exact ⟨⟨rfl, .refl _⟩, fun _ => .inl h⟩
  next h =>
    exact (release_sameParts rfl p m).imp fun _ t ht =>
      ⟨⟨congrArg RunContext.equipment ht.1, ht.2.1⟩, fun hb => .inr (ht.2.2 hb)⟩

theorem deleteHost_same (p : Option ℕ) (m : Member) :
    Meets (onlyIf (p ≠ none) (deleteHost p)) m (fun _ t => SameEquipment m t)
      fun _ _ => False := by
  rw [meets_onlyIf]
  split
  · exact ⟨rfl, (SameParts.touch rfl m.cuda p).trans (SameParts.kill rfl _ p)⟩
  · exact ⟨rfl, .refl _⟩

theorem keeps_cudaFree_device (p : Option ℕ) :
    Keeps PlacementSound (cudaFree .deviceBuffer p) := fun m hm =>
  (cudaFree_device p m).returns fun _ _ ht => ht.1.sound hm

theorem keeps_deleteHost (p : Option ℕ) :
    Keeps PlacementSound (onlyIf (p ≠ none) (deleteHost p)) := fun m hm =>
  (deleteHost_same p m).returns fun _ _ ht => ht.sound hm

/-- A member that is not equipment. -/
theorem keeps_modifyThis {f : RunContext → RunContext}
    (hf : ∀ c, (f c).equipment = c.equipment) : Keeps PlacementSound (modifyThis f) :=
  keeps_modify fun m hm => (SameEquipment.store (hf m.this)).sound hm

theorem keeps_acquire_buffer {part : Part} (hpart : part.isEquipment = false) (size : ℕ)
    {store : Option ℕ → RunContext → RunContext}
    (hstore : ∀ p c, (store p c).equipment = c.equipment) :
    Keeps PlacementSound (acquire part size store) := by
  intro m hm
  rw [meets_acquire]
  split
  next => exact hm
  next =>
    have hsame : SameEquipment m ⟨store (some m.cuda.next) m.this, m.cuda.alloc part size⟩ :=
      ⟨hstore _ _, .alloc hpart hm.fresh size⟩
    exact hsame.sound hm

theorem keeps_freeWorkBufferDevice : Keeps PlacementSound RunContext.freeWorkBufferDevice :=
  RunContext.keeps_freeWorkBufferDevice keeps_sync_placed keeps_cudaFree_device

theorem keeps_freeWorkBufferHost : Keeps PlacementSound RunContext.freeWorkBufferHost :=
  RunContext.keeps_freeWorkBufferHost keeps_sync_placed keeps_deleteHost

theorem keeps_requestWorkBufferDevice (n : ℕ) :
    Keeps PlacementSound (RunContext.requestWorkBufferDevice n) :=
  RunContext.keeps_requestWorkBufferDevice keeps_cudaFree_device
    (keeps_modifyThis fun _ => rfl) (keeps_acquire_buffer rfl n fun _ _ => rfl)

theorem keeps_requestWorkBufferHost (n : ℕ) :
    Keeps PlacementSound (RunContext.requestWorkBufferHost n) :=
  RunContext.keeps_requestWorkBufferHost keeps_deleteHost
    (keeps_modifyThis fun _ => rfl) (keeps_acquire_buffer rfl n fun _ _ => rfl)

/-- A part that was there was released, or its release failed and changed nothing. -/
structure Released (part : Part) (m t : Member) : Prop where
  this : t.this = m.this
  misuses : t.cuda.misuses = m.cuda.misuses
  fresh : m.cuda.Fresh → t.cuda.Fresh
  others : ∀ part', part' ≠ part → ∀ p, t.cuda.has part' p = m.cuda.has part' p
  failing : ∀ call, t.cuda.failing call = m.cuda.failing call
  kept : m.cuda.failing (.release part) = true → t = m

theorem release_released {part : Part} {p : Option ℕ} (h : m.cuda.has part p = true) :
    Meets (release part p) m (fun _ t => Released part m t) fun _ _ => False := by
  rw [meets_release h]
  split
  next => exact ⟨rfl, rfl, id, fun _ _ _ => rfl, fun _ => rfl, fun _ => rfl⟩
  next hfail =>
    refine ⟨rfl, m.cuda.misuses_kill part p, fun hf => hf.kill part p, fun part' hne q => ?_,
      m.cuda.failing_kill part p, fun hf => absurd hf hfail⟩
    rw [Cuda.has, Cuda.has, Cuda.size?_kill hne]

/-- Both handles and the stream of an equipped context go, unless no call succeeds. -/
theorem destroyHandles_sound (hm : PlacementSound m)
    (hgpu : m.this.mOperationPlacement = .GPU) :
    Meets RunContext.destroyHandles m
      (fun _ t => t.this = m.this ∧ EquipmentUsed t ∧ t.cuda.Fresh ∧
        t.cuda.has .info m.this.mpInfo = true ∧
          (∀ call, t.cuda.failing call = m.cuda.failing call) ∧
          ((∀ part ∈ [Part.stream, .solver, .blas], m.cuda.failing (.release part) = true) → t = m))
      fun _ _ => False := by
  have hequipped := hm.truly hgpu
  rw [RunContext.destroyHandles, meets_bind, meets_get, meets_bind]
  apply (release_released hequipped.solver).imp
  intro _ t ht
  have hblas : t.cuda.has .blas m.this.mCuBlasHandle = true :=
    (ht.others _ (by decide) _).trans hequipped.blas
  rw [meets_bind]
  apply (release_released hblas).imp
  intro _ u hu
  have hstream : u.cuda.has .stream m.this.mCudaStream = true :=
    (hu.others _ (by decide) _).trans ((ht.others _ (by decide) _).trans hequipped.stream)
  rw [meets_bind]
  apply (release_released hstream).imp
  intro _ v hv
  refine ⟨hv.this.trans (hu.this.trans ht.this), ?_, hv.fresh (hu.fresh (ht.fresh hm.fresh)), ?_,
    fun call => (hv.failing call).trans ((hu.failing call).trans (ht.failing call)), fun hall => ?_⟩
  · intro part hpart
    rw [hv.misuses, hu.misuses, ht.misuses]
    exact hm.used part hpart
  · rw [hv.others _ (by decide), hu.others _ (by decide), ht.others _ (by decide)]
    exact hequipped.info
  · obtain rfl := ht.kept (hall _ (by decide))
    obtain rfl := hu.kept (hall _ (by decide))
    exact hv.kept (hall _ (by decide))

/-- What is left of soundness once the context is torn down. -/
structure TornDown (m t : Member) : Prop where
  used : EquipmentUsed t
  fresh : t.cuda.Fresh
  failing : ∀ call, t.cuda.failing call = m.cuda.failing call

theorem clearUp_tornDown (hm : PlacementSound m) (h : ¬ m.stripsHalfway) :
    Meets RunContext.clearUp m (fun _ t => TornDown m t) fun _ t => PlacementSound t := by
  rw [RunContext.clearUp, meets_bind, meets_get, meets_bind, meets_onlyIf]
  split
  next hgpu =>
    rw [meets_bind]
    refine (sync_sound hm).mono (fun _ t ht => ?_) fun _ t ht => ?_
    · obtain ⟨hthis, hdevice, hsync⟩ := ht
      have hsynced : SameEquipment m t := ⟨congrArg RunContext.equipment hthis, .device hdevice⟩
      rw [meets_bind, meets_errorCheck]
      apply (cudaFree_device _ _).returns
      intro b u hu
      rw [hdevice.has, hdevice.failing] at hu
      have hfreed := (hsynced.trans hu.1).sound hm
      cases b with
      | false => exact hfreed
      | true =>
        rw [if_pos rfl, meets_bind]
        apply (deleteHost_same _ _).returns
        intro _ v hv
        have hsame := (hsynced.trans hu.1).trans hv
        have hdeleted := hsame.sound hm
        have hinfo : v.this.mpInfo = m.this.mpInfo := congrArg Equipment.info hsame.equipment
        have hgpu' : v.this.mOperationPlacement = .GPU :=
          (congrArg Equipment.placement hsame.equipment).trans hgpu
        rw [meets_bind]
        apply (destroyHandles_sound hdeleted hgpu').returns
        intro _ w hw
        obtain ⟨-, hused, hfresh, hhas, hfailing, hall⟩ := hw
        rw [hinfo] at hhas
        rw [meets_errorCheck, meets_cudaFree (.inr hhas)]
        split
        next hlast =>
          -- the info word stays: by the condition nothing was destroyed
          rw [hfailing, hsame.parts.failing] at hlast
          have hkept : w = v := by
            refine hall fun part hpart => ?_
            by_contra hdestroyed
            rw [hsame.parts.failing, Bool.not_eq_true] at hdestroyed
            exact h ⟨hgpu, hsync hgpu, hu.2 rfl, hlast.2, part, hpart, hdestroyed⟩
          rw [hkept]
          exact hdeleted
        next =>
          refine ⟨fun part hpart => ?_, hfresh.kill _ _, fun call => ?_⟩
          · change part ∉ (w.cuda.kill .info m.this.mpInfo).misuses
            rw [Cuda.misuses_kill]
            exact hused part hpart
          · change (w.cuda.kill .info m.this.mpInfo).failing call = _
            rw [Cuda.failing_kill, hfailing, hsame.parts.failing]
    · rw [ht]
      exact hm
  next => exact ⟨hm.used, hm.fresh, fun _ => rfl⟩

/-- A part was acquired and stored, and what was there before still is. -/
structure Acquired (part : Part) (store : Option ℕ → RunContext → RunContext) (m t : Member) :
    Prop where
  stored : ∃ id, t.this = store (some id) m.this ∧ t.cuda.has part (some id) = true
  old : ∀ part' p, m.cuda.has part' p = true → t.cuda.has part' p = true
  misuses : t.cuda.misuses = m.cuda.misuses
  fresh : t.cuda.Fresh
  failing : ∀ call, t.cuda.failing call = m.cuda.failing call

theorem acquire_acquired {part : Part} {size : ℕ}
    {store : Option ℕ → RunContext → RunContext} (hfresh : m.cuda.Fresh) :
    Meets (acquire part size store) m
      (fun b t => if b then Acquired part store m t else m.cuda.failing (.acquire part) = true)
      fun _ _ => False := by
  rw [meets_acquire]
  split
  next hfail => exact hfail
  next =>
    refine ⟨⟨m.cuda.next, rfl, ?_⟩, fun part' p hp => ?_, rfl, hfresh.alloc _ _, fun _ => rfl⟩
    · exact Option.isSome_of_eq_some (Cuda.size?_alloc_self part size)
    · obtain ⟨n, hn⟩ := Option.isSome_iff_exists.mp hp
      exact Option.isSome_of_eq_some (hfresh.size?_alloc hn part size)

/-- Where `cuda` creates the part. -/
theorem acquire_certain {part : Part} {size : ℕ} {store : Option ℕ → RunContext → RunContext}
    (hfresh : m.cuda.Fresh) (hok : m.cuda.failing (.acquire part) = false) :
    Meets (acquire part size store) m (fun _ t => Acquired part store m t) fun _ _ => False := by
  apply (acquire_acquired hfresh).imp
  intro b t ht
  cases b with
  | false =>
    rw [if_neg nofun, hok] at ht
    contradiction
  | true => exact ht

namespace Acquired
variable {part : Part} {store : Option ℕ → RunContext → RunContext} {m t : Member}

/-- The member it was stored in holds it. -/
theorem got (h : Acquired part store m t) (member : RunContext → Option ℕ)
    (hmember : ∀ id, member (store id m.this) = id) : t.cuda.has part (member t.this) = true := by
  obtain ⟨id, hthis, hhas⟩ := h.stored
  rw [hthis, hmember]
  exact hhas

/-- The other members hold what they did. -/
theorem kept (h : Acquired part store m t) {member : RunContext → Option ℕ} {part' : Part}
    (hmember : ∀ id, member (store id m.this) = member m.this)
    (hhas : m.cuda.has part' (member m.this) = true) :
    t.cuda.has part' (member t.this) = true := by
  obtain ⟨id, hthis, -⟩ := h.stored
  rw [hthis, hmember]
  exact h.old _ _ hhas

/-- Binding a handle afterwards changes none of this. -/
theorem device (h : Acquired part store m t) {cuda : Cuda} (hd : SameDevice t.cuda cuda) :
    Acquired part store m { t with cuda } where
  stored := by
    obtain ⟨id, hthis, hhas⟩ := h.stored
    exact ⟨id, hthis, (hd.has _ _).trans hhas⟩
  old part' p hp := (hd.has _ _).trans (h.old part' p hp)
  misuses := hd.misuses.trans h.misuses
  fresh := hd.fresh h.fresh
  failing call := (hd.failing call).trans (h.failing call)

end Acquired

/-- With both library handles created, `equip` raises for want of the stream or the info
word, or leaves an equipped context. -/
theorem equip_equipped (hused : EquipmentUsed m) (hfresh : m.cuda.Fresh)
    (hsolver : m.cuda.failing (.acquire .solver) = false)
    (hblas : m.cuda.failing (.acquire .blas) = false) :
    Meets RunContext.equip m (fun _ t => Equipped t ∧ EquipmentUsed t ∧ t.cuda.Fresh)
      fun _ _ => m.cuda.failing (.acquire .stream) = true ∨
        m.cuda.failing (.acquire .info) = true := by
  rw [RunContext.equip, meets_bind, meets_errorCheck]
  apply (acquire_acquired hfresh).returns
  intro b t ht
  cases b with
  | false => exact .inl ht
  | true =>
  rw [if_pos rfl] at ht ⊢
  have hstream := ht.got RunContext.mCudaStream fun _ => rfl
  rw [← ht.failing] at hsolver
  rw [meets_bind]
  apply (acquire_certain ht.fresh hsolver).returns
  intro _ u hu
  rw [meets_bind, RunContext.meets_setStream (hu.got RunContext.mCuSolverHandle fun _ => rfl)
    (hu.kept (fun _ => rfl) hstream), meets_bind]
  replace hu := hu.device (.bindStream u.cuda .solver u.this.mCuSolverHandle u.this.mCudaStream)
  have hstream := hu.kept (fun _ => rfl) hstream
  have hsolver := hu.got RunContext.mCuSolverHandle fun _ => rfl
  rw [← ht.failing, ← hu.failing] at hblas
  apply (acquire_certain hu.fresh hblas).returns
  intro _ v hv
  rw [meets_bind, RunContext.meets_setStream (hv.got RunContext.mCuBlasHandle fun _ => rfl)
    (hv.kept (fun _ => rfl) hstream), meets_errorCheck]
  replace hv := hv.device (.bindStream v.cuda .blas v.this.mCuBlasHandle v.this.mCudaStream)
  have hstream := hv.kept (fun _ => rfl) hstream
  have hsolver := hv.kept (fun _ => rfl) hsolver
  have hblas := hv.got RunContext.mCuBlasHandle fun _ => rfl
  apply (acquire_acquired hv.fresh).returns
  intro b w hw
  cases b with
  | false =>
    rw [if_neg nofun, hv.failing, hu.failing, ht.failing] at hw
    exact .inr hw
  | true =>
  rw [if_pos rfl] at hw ⊢
  refine ⟨⟨hw.kept (fun _ => rfl) hstream, hw.kept (fun _ => rfl) hsolver,
    hw.kept (fun _ => rfl) hblas, hw.got RunContext.mpInfo fun _ => rfl⟩, fun part hpart => ?_,
    hw.fresh⟩
  rw [hw.misuses, hv.misuses, hu.misuses, ht.misuses]
  exact hused part hpart

theorem setOperationPlacement_placed (hm : PlacementSound m) (p : OperationPlacement)
    (h : (ContextOp.setOperationPlacement p).keepsPlacement m) :
    Meets (RunContext.setOperationPlacement p) m (fun _ t => PlacementSound t)
      fun _ t => PlacementSound t := by
  rw [RunContext.setOperationPlacement, meets_bind, meets_get]
  split
  next => exact keeps_freeWorkBufferDevice m hm
  next hother =>
    have hstrip : ¬ m.stripsHalfway := by
      cases p with
      | CPU => exact h
      | GPU => exact fun hs => hother ⟨hs.1, rfl⟩
    rw [meets_bind]
    apply (clearUp_tornDown hm hstrip).imp
    intro _ t ht
    rw [meets_bind, modifyThis, meets_modify, meets_onlyIf]
    cases p with
    | CPU => exact ⟨nofun, ht.used, ht.fresh⟩
    | GPU =>
      have hcpu : m.this.mOperationPlacement = .CPU := by
        by_contra hp
        exact hother ⟨placement_of_ne_cpu hp, rfl⟩
      have hnone (part : Part) (hpart : part.isEquipment = true) :
          m.cuda.failing (.acquire part) = false := by
        by_contra hfail
        exact h ⟨hcpu, part, hpart, by simpa using hfail⟩
      rw [if_pos rfl]
      have hequip := equip_equipped
        (m := { t with this := { t.this with mOperationPlacement := .GPU } }) ht.used ht.fresh
        ((ht.failing _).trans (hnone .solver rfl)) ((ht.failing _).trans (hnone .blas rfl))
      refine hequip.mono (fun _ u hu => ?_) fun _ _ he => ?_
      · exact ⟨fun _ => hu.1, hu.2.1, hu.2.2⟩
      · rcases he with he | he
        · exact absurd ((ht.failing _).symm.trans he) (by simp [hnone .stream rfl])
        · exact absurd ((ht.failing _).symm.trans he) (by simp [hnone .info rfl])

theorem keeps_setRunMode_placed (mode : RunMode) :
    Keeps PlacementSound (RunContext.setRunMode mode) := by
  have hmode : Keeps PlacementSound (modifyThis fun c => { c with mRunMode := mode }) :=
    keeps_modifyThis fun _ => rfl
  exact keeps_get.bind fun _ => (Keeps.onlyIf keeps_sync_placed).bind fun _ => hmode

theorem PlacementSound.tick (hm : PlacementSound m) : PlacementSound m.tick := by
  refine ⟨fun hgpu => ?_, hm.used, hm.fresh⟩
  have hequipped := hm.truly hgpu
  exact ⟨hequipped.stream, hequipped.solver, hequipped.blas, hequipped.info⟩

theorem run_placed (hm : PlacementSound m) (op : ContextOp) (h : op.keepsPlacement m) :
    Meets op.run m (fun _ t => PlacementSound t) fun _ t => PlacementSound t := by
  cases op with
  | setOperationPlacement p =>
    rw [ContextOp.run, meets_bind]
    exact setOperationPlacement_placed hm p h
  | setRunMode mode => exact (keeps_setRunMode_placed mode).bind (fun _ => Keeps.pure none) m hm
  | sync => exact keeps_sync_placed.bind (fun _ => Keeps.pure none) m hm
  | getStream | getCusolverDnHandle | getCuBlasDnHandle | getInfoPointer =>
    exact RunContext.keeps_getMetadata _ m hm
  | requestWorkBufferDevice n => exact keeps_requestWorkBufferDevice n m hm
  | requestWorkBufferHost n => exact keeps_requestWorkBufferHost n m hm
  | freeWorkBufferDevice =>
    exact keeps_freeWorkBufferDevice.bind (fun _ => Keeps.pure none) m hm
  | freeWorkBufferHost => exact keeps_freeWorkBufferHost.bind (fun _ => Keeps.pure none) m hm
  | finalizeRunContext =>
    have htick : Keeps PlacementSound (modifyCuda Cuda.tick) :=
      keeps_modify fun _ ht => ht.tick
    exact (keeps_sync_placed.bind fun _ => htick.bind fun _ =>
      keeps_freeWorkBufferHost.bind fun _ => Keeps.pure none) m hm

theorem step_placed (hm : PlacementSound m) (op : ContextOp) (h : op.keepsPlacement m) :
    PlacementSound (op.step m) :=
  (run_placed hm op h).state.tick

/-- A GPU context is constructed with both library handles. -/
def constructsHandles (p : OperationPlacement) (fails : ℕ → Call → Bool) : Prop :=
  p = .GPU → fails 0 (.acquire .solver) = false ∧ fails 0 (.acquire .blas) = false

theorem construct_placed (p : OperationPlacement) (mode : RunMode) (fails : ℕ → Call → Bool)
    (h : constructsHandles p fails) :
    Meets (RunContext.construct p mode) ⟨.raw, .fresh fails⟩ (fun _ t => PlacementSound t)
      fun _ _ => True := by
  have hused : EquipmentUsed ⟨.raw, .fresh fails⟩ := fun _ _ => List.not_mem_nil
  have hfresh : (Cuda.fresh fails).Fresh := fun _ _ => rfl
  rw [RunContext.construct, meets_bind, modifyThis, meets_modify, meets_bind, meets_onlyIf]
  cases p with
  | CPU => exact ⟨nofun, hused, hfresh⟩
  | GPU =>
    rw [if_pos rfl]
    apply (equip_equipped hused hfresh (h rfl).1 (h rfl).2).orRaises
    intro _ t ht
    exact ⟨fun _ => ⟨ht.1.stream, ht.1.solver, ht.1.blas, ht.1.info⟩, ht.2.1, ht.2.2⟩

/-- The destructor uses and destroys what is there. -/
theorem destroy_used (hm : PlacementSound m) :
    Meets RunContext.destroy m (fun _ t => EquipmentUsed t) fun _ _ => False := by
  have hsync : Meets (tryCatch RunContext.sync fun _ => pure ()) m (fun _ t => PlacementSound t)
      fun _ _ => False := by
    rw [meets_tryCatch]
    exact (keeps_sync_placed m hm).mono (fun _ _ ht => ht) fun _ _ ht => ht
  rw [RunContext.destroy, meets_bind]
  apply hsync.imp
  intro _ t ht
  rw [meets_bind, meets_get, meets_bind]
  apply (cudaFree_device _ _).imp
  intro _ u hu
  rw [meets_bind]
  apply (deleteHost_same _ _).imp
  intro _ v hv
  have hsame := hu.1.trans hv
  have hfreed := hsame.sound ht
  rw [meets_onlyIf]
  split
  next hgpu =>
    have hinfo : v.this.mpInfo = t.this.mpInfo := congrArg Equipment.info hsame.equipment
    rw [meets_bind]
    refine (destroyHandles_sound hfreed
      ((congrArg Equipment.placement hsame.equipment).trans hgpu)).mono (fun _ w hw => ?_)
      fun _ _ he => he
    obtain ⟨-, hused, -, hhas, -⟩ := hw
    rw [hinfo] at hhas
    rw [meets_bind, meets_cudaFree (.inr hhas)]
    split
    next => exact hused
    next =>
      intro part hpart
      change part ∉ (w.cuda.kill .info t.this.mpInfo).misuses
      rw [Cuda.misuses_kill]
      exact hused part hpart
  next => exact hfreed.used

/-- In every run whose placement changes do not stop halfway, a context that reports GPU
placement has all it needs, also after a change that throws, and neither a later call nor
the destructor uses a handle that is not there. -/
theorem placement_reported (p : OperationPlacement) (mode : RunMode) (fails : ℕ → Call → Bool)
    {start m : Member} (hhandles : constructsHandles p fails)
    (hnew : exec (RunContext.construct p mode) ⟨.raw, .fresh fails⟩ = (.ok (), start))
    (h : Reached ContextOp.step (fun m op => op.keepsPlacement m) start.tick m) :
    ReportsTruly m ∧ EquipmentUsed m ∧
      (∀ q, (ContextOp.setOperationPlacement q).keepsPlacement m →
        Meets (RunContext.setOperationPlacement q) m (fun _ t => ReportsTruly t)
          fun _ t => ReportsTruly t) ∧
      Meets RunContext.destroy m (fun _ t => EquipmentUsed t) fun _ _ => False := by
  have hstart : PlacementSound start := by
    have hconstruct := construct_placed p mode fails hhandles
    rw [Meets, hnew] at hconstruct
    exact hconstruct
  have hm : PlacementSound m := h.keeps hstart.tick fun _ op ht hok => step_placed ht op hok
  refine ⟨hm.truly, hm.used, fun q hq => ?_, destroy_used hm⟩
  exact (setOperationPlacement_placed hm q hq).mono (fun _ _ ht => ht.truly) fun _ _ ht => ht.truly

/-- A new CPU context on a node where no stream can be created. -/
def newCpuContext : Except GpuError Unit × Member :=
  exec (RunContext.construct .CPU .SYNC) ⟨.raw, .fresh fun _ call => call == .acquire .stream⟩

def cpuContext : Member := newCpuContext.2.tick

/-- A new GPU context whose stream cannot be synchronized in the next call. -/
def newBlockedContext : Except GpuError Unit × Member :=
  exec (RunContext.construct .GPU .SYNC) ⟨.raw, .fresh fun t call => t == 1 && call == .synchronize⟩

def blockedContext : Member := newBlockedContext.2.tick

/-- A change to CPU throws at the synchronize, and the context, still on GPU, has all it
needs. -/
theorem gpu_reported_equipped :
    (exec (ContextOp.setOperationPlacement .CPU).run blockedContext).1 =
        .error (.cudaError .synchronize) ∧
      ((ContextOp.setOperationPlacement .CPU).step blockedContext).this.mOperationPlacement = .GPU ∧
        ReportsTruly ((ContextOp.setOperationPlacement .CPU).step blockedContext) := by
  have hnew : newBlockedContext = (.ok (), newBlockedContext.2) := Prod.ext rfl rfl
  have hcpu : (ContextOp.setOperationPlacement .CPU).keepsPlacement blockedContext :=
    fun h => absurd h.2.1 (by decide)
  exact ⟨rfl, rfl, (placement_reported .GPU .SYNC _ (fun _ => ⟨rfl, rfl⟩) hnew
    (.next (ContextOp.setOperationPlacement .CPU) .start hcpu)).1⟩

/-- A change to GPU throws and leaves a context that reports GPU placement with no stream. -/
theorem gpu_reported_without_stream :
    ¬ ∀ m, Reached ContextOp.step anyStep cpuContext m → ∀ q,
      Meets (RunContext.setOperationPlacement q) m (fun _ _ => True)
        fun _ t => ReportsTruly t := by
  intro h
  have hthrown : ReportsTruly (exec (RunContext.setOperationPlacement .GPU) cpuContext).2 :=
    h cpuContext .start .GPU
  exact absurd (hthrown rfl).stream (by decide)

end
end RCompss.Kernels
