import RCompss.Library.RaisesIf
import RCompss.Kernels.GpuOperations

/-! What is allocated after a call on the device, and after a factorization. -/
namespace RCompss.Kernels
open RCompss.Library

/-- What changes neither the context nor what is allocated. -/
structure SameAllocations (m t : Member) : Prop where
  this : t.this = m.this
  live : t.cuda.live = m.cuda.live
  next : t.cuda.next = m.cuda.next
  fails : t.cuda.fails = m.cuda.fails
  time : t.cuda.time = m.cuda.time

namespace SameAllocations
variable {m t u : Member}

theorem refl (m : Member) : SameAllocations m m := ⟨rfl, rfl, rfl, rfl, rfl⟩

theorem trans (h : SameAllocations m t) (h' : SameAllocations t u) : SameAllocations m u where
  this := h'.this.trans h.this
  live := h'.live.trans h.live
  next := h'.next.trans h.next
  fails := h'.fails.trans h.fails
  time := h'.time.trans h.time

theorem failing (h : SameAllocations m t) (call : Call) :
    t.cuda.failing call = m.cuda.failing call := by
  rw [Cuda.failing, Cuda.failing, h.fails, h.time]

theorem has (h : SameAllocations m t) (part : Part) (p : Option ℕ) :
    t.cuda.has part p = m.cuda.has part p := by
  simp only [Cuda.has, Cuda.size?, h.live]

theorem touch (m : Member) (part : Part) (p : Option ℕ) :
    SameAllocations m { m with cuda := m.cuda.touch part p } := by
  unfold Cuda.touch
  split
  · exact refl m
  · exact ⟨rfl, rfl, rfl, rfl, rfl⟩

theorem accessAll (cuda : Cuda) (this : RunContext) (accesses : List (Option ℕ × ℕ)) :
    SameAllocations ⟨this, cuda⟩ ⟨this, cuda.accessAll accesses⟩ := by
  induction accesses generalizing cuda with
  | nil => exact refl _
  | cons a accesses ih =>
    have hhead : SameAllocations ⟨this, cuda⟩ ⟨this, cuda.access a.1 a.2⟩ := by
      unfold Cuda.access
      split
      · exact refl _
      · exact ⟨rfl, rfl, rfl, rfl, rfl⟩
    exact hhead.trans (ih _)

theorem enqueue (m : Member) (stream : Option ℕ) :
    SameAllocations m { m with cuda := m.cuda.enqueue stream } := ⟨rfl, rfl, rfl, rfl, rfl⟩

theorem drain (m : Member) (stream : Option ℕ) :
    SameAllocations m { m with cuda := m.cuda.drain stream } := ⟨rfl, rfl, rfl, rfl, rfl⟩

end SameAllocations

section
variable {m : Member}

theorem enqueue_sameAllocations (stream : Option ℕ) (accesses : List (Option ℕ × ℕ))
    (m : Member) : Meets (enqueue stream accesses) m
      (fun b t => SameAllocations m t ∧
        (b = true ↔ m.cuda.has .stream stream = true ∧ m.cuda.failing .enqueue = false))
      fun _ _ => False := by
  have htouch := SameAllocations.touch m .stream stream
  rw [enqueue, modifyCuda, meets_bind, meets_modify, meets_bind, meets_get, htouch.has,
    htouch.failing]
  split
  next h =>
    rw [modifyCuda, meets_bind, meets_modify]
    refine ⟨htouch.trans ((SameAllocations.accessAll _ m.this accesses).trans ?_),
      iff_of_true rfl h⟩
    exact SameAllocations.enqueue ⟨m.this, _⟩ stream
  next h => exact ⟨htouch, iff_of_false Bool.false_ne_true h⟩

theorem streamSynchronize_raisesIf (stream : Option ℕ) (m : Member) :
    RaisesIf (RunContext.streamSynchronize stream) m (m.cuda.failing .synchronize = true)
      (fun _ t => SameAllocations m t) fun t => SameAllocations m t := by
  have htouch := SameAllocations.touch m .stream stream
  unfold RaisesIf
  rw [RunContext.meets_streamSynchronize]
  split
  next h => exact ⟨h, htouch⟩
  next h => exact ⟨h, htouch.trans (.drain ⟨m.this, m.cuda.touch .stream stream⟩ stream)⟩

/-- The checks that a call on a GPU context makes when it ends. -/
theorem waitIfSync_raisesIf (hgpu : m.this.mOperationPlacement ≠ .CPU) :
    RaisesIf waitIfSync m (m.this.mRunMode = .SYNC ∧ m.cuda.failing .synchronize = true)
      (fun _ t => SameAllocations m t) fun t => SameAllocations m t := by
  unfold RaisesIf
  rw [waitIfSync, meets_bind, meets_get, meets_onlyIf]
  split
  next hsync =>
    rw [meets_bind, RunContext.getStream, RunContext.getMetadata, meets_bind, meets_get,
      if_neg hgpu, meets_pure]
    simp only [hsync, true_and]
    exact streamSynchronize_raisesIf m.this.mCudaStream m
  next hasync => exact ⟨fun h => hasync h.1, .refl m⟩

/-- A checked call raises when it fails. -/
theorem errorCheck_raisesIf {x : MemberM Bool} {e : GpuError} {P : Member → Prop} {ok : Prop}
    (h : Meets x m (fun b t => P t ∧ (b = true ↔ ok)) fun _ _ => False) :
    RaisesIf (errorCheck e x) m (¬ ok) (fun _ t => P t) P := by
  unfold RaisesIf
  rw [meets_errorCheck]
  apply h.returns
  intro b t ht
  cases b with
  | true => exact ⟨not_not.mpr (ht.2.mp rfl), ht.1⟩
  | false => exact ⟨fun hok => Bool.false_ne_true (ht.2.mpr hok), ht.1⟩

theorem exec_getMetadata (hgpu : m.this.mOperationPlacement ≠ .CPU)
    (member : RunContext → Option ℕ) :
    exec (RunContext.getMetadata member) m = (.ok (member m.this), m) := by
  rw [RunContext.getMetadata, exec_bind_ok (exec_get m), if_neg hgpu]
  rfl

theorem getMetadata_raisesIf (member : RunContext → Option ℕ) (m : Member) :
    RaisesIf (RunContext.getMetadata member) m (m.this.mOperationPlacement = .CPU)
      (fun p t => p = member m.this ∧ t = m) fun t => t = m := by
  unfold RaisesIf
  rw [RunContext.getMetadata, meets_bind, meets_get]
  split
  next h => exact ⟨h, rfl⟩
  next h => exact ⟨h, rfl, rfl⟩

theorem compute_sameAllocations (part : Part) (handle : Option ℕ) (m : Member) :
    Meets (compute part handle) m
      (fun b t => SameAllocations m t ∧
        (b = true ↔ m.cuda.has part handle = true ∧ m.cuda.failing (.compute part) = false))
      fun _ _ => False := by
  have htouch := SameAllocations.touch m part handle
  rw [compute, modifyCuda, meets_bind, meets_modify, meets_bind, meets_get, htouch.has,
    htouch.failing]
  split
  next h =>
    rw [modifyCuda, meets_bind, meets_modify]
    exact ⟨htouch.trans (.enqueue ⟨m.this, m.cuda.touch part handle⟩ _), iff_of_true rfl h⟩
  next h => exact ⟨htouch, iff_of_false Bool.false_ne_true h⟩

theorem bufferSize_sameAllocations (sh : Option ℕ) (m : Member) :
    Meets (bufferSize sh) m
      (fun b t => SameAllocations m t ∧
        (b = true ↔ m.cuda.has .solver sh = true ∧ m.cuda.failing .bufferSize = false))
      fun _ _ => False := by
  have htouch := SameAllocations.touch m .solver sh
  rw [bufferSize, modifyCuda, meets_bind, meets_modify, meets_bind, meets_get, meets_pure,
    htouch.has, htouch.failing]
  exact ⟨htouch, decide_eq_true_iff⟩

theorem copyInfo_sameAllocations (d_info : Option ℕ) (m : Member) :
    Meets (copyInfo d_info) m (fun _ t => SameAllocations m t) fun _ _ => False := by
  rw [copyInfo, modifyCuda, meets_bind, meets_modify, meets_bind, meets_get]
  exact SameAllocations.touch m .info d_info

end

/-- Everything that was allocated is, and nothing else. -/
def LeavesMemory {ε α : Type} (x : Exec Member ε α) (m : Member) : Prop :=
  (exec x m).2.cuda.live = m.cuda.live

/-- A factorization by cuSOLVER stops before it has a work space, needs none, or gets to the
end of its use. -/
def FactorizationReleases (lwork : ℤ) (m : Member) : Prop :=
  m.this.mOperationPlacement = .CPU ∨
    ¬ (m.cuda.has .solver m.this.mCuSolverHandle = true ∧
      m.cuda.failing .bufferSize = false) ∨
    lwork ≤ 0 ∨ m.cuda.failing (.acquire .deviceBuffer) = true ∨
    m.cuda.failing (.compute .solver) = false ∧
      ¬ (m.this.mRunMode = .SYNC ∧ m.cuda.failing .synchronize = true) ∧
      m.cuda.failing (.release .deviceBuffer) = false

section
variable {m : Member} {live : ℕ → Option Resource}

/-- Nothing allocated or released since. -/
def Allocates (live : ℕ → Option Resource) (t : Member) : Prop := t.cuda.live = live

theorem allocates_of_same {t : Member} (h : SameAllocations m t) (hm : Allocates live m) :
    Allocates live t := h.live.trans hm

theorem keeps_allocates {ε α : Type} {x : Exec Member ε α}
    (h : ∀ m, Meets x m (fun _ t => SameAllocations m t) fun _ t => SameAllocations m t) :
    Keeps (Allocates live) x := fun m hm =>
  (h m).mono (fun _ _ ht => allocates_of_same ht hm) fun _ _ ht => allocates_of_same ht hm

/-- Where a factorization ends whatever happened to its work space. -/
theorem keeps_copyInfo (d_info : Option ℕ) (info : ℤ) : Keeps (Allocates live) (do
    errorCheck (.cudaError .copyBack) (copyInfo d_info)
    return info) := by
  have hcopy : Keeps (Allocates live) (copyInfo d_info) := keeps_allocates fun m =>
    (copyInfo_sameAllocations d_info m).returns fun _ _ ht => ht
  exact (keeps_errorCheck hcopy _).bind fun _ => .pure info

theorem keeps_withoutWorkSpace (call : String) (sh : Option ℕ) (info : ℤ) :
    Keeps (Allocates live) (do
      let d_info ← RunContext.getInfoPointer
      errorCheck (.library "cuSOLVER" call) (compute .solver sh)
      waitIfSync
      onlyIf ((none : Option ℕ) ≠ none)
        (errorCheck (.cudaError (.release .deviceBuffer)) (cudaFree .deviceBuffer none))
      errorCheck (.cudaError .copyBack) (copyInfo d_info)
      return info) := by
  have hinfo : Keeps (Allocates live) RunContext.getInfoPointer :=
    keeps_get.bind fun _ => (keeps_throw _).ite (.pure _)
  have hcompute : Keeps (Allocates live) (compute .solver sh) := keeps_allocates fun m =>
    (compute_sameAllocations .solver sh m).returns fun _ _ ht => ht.1
  have hsynchronize (stream : Option ℕ) :
      Keeps (Allocates live) (RunContext.streamSynchronize stream) := keeps_allocates fun m =>
    Meets.mono (streamSynchronize_raisesIf stream m) (fun _ _ ht => ht.2) fun _ _ ht => ht.2
  have hstream : Keeps (Allocates live) RunContext.getStream :=
    keeps_get.bind fun _ => (keeps_throw _).ite (.pure _)
  have hwait : Keeps (Allocates live) waitIfSync :=
    keeps_get.bind fun _ => (hstream.bind hsynchronize).onlyIf
  apply hinfo.bind
  intro d_info
  apply (keeps_errorCheck hcompute _).bind
  intro _
  apply hwait.bind
  intro _
  rw [onlyIf, if_neg (not_not.mpr rfl)]
  exact (Keeps.pure ()).bind fun _ => keeps_copyInfo d_info info

theorem newMemory_raisesIf (part : Part) (size : ℕ) (e : GpuError) (m : Member) :
    RaisesIf (newMemory part size e) m (m.cuda.failing (.acquire part) = true)
      (fun p t => p = some m.cuda.next ∧ t = { m with cuda := m.cuda.alloc part size })
      fun t => t = m := by
  unfold RaisesIf
  rw [newMemory, meets_bind, meets_get, meets_bind, meets_errorCheck, meets_acquire]
  split
  next h => exact ⟨h, rfl⟩
  next h => exact ⟨h, rfl, rfl⟩

theorem SameAllocations.fresh {t : Member} (h : SameAllocations m t) (hm : m.cuda.Fresh) :
    t.cuda.Fresh := by
  intro id hid
  rw [h.next] at hid
  rw [h.live, hm id hid]

/-- An allocation after which nothing was released. -/
theorem not_allocates_alloc (hm : m.cuda.Fresh) {t : Member} {part : Part} {size : ℕ}
    (h : SameAllocations { m with cuda := m.cuda.alloc part size } t) :
    ¬ Allocates m.cuda.live t := by
  intro hlive
  have hnew : t.cuda.live m.cuda.next = some ⟨part, size⟩ := by
    rw [h.live]
    exact Function.update_self ..
  rw [Allocates] at hlive
  rw [hlive, hm m.cuda.next le_rfl] at hnew
  contradiction

/-- What is released last leaves what there was before it. -/
theorem live_alloc_kill (hm : m.cuda.Fresh) (part : Part) (size : ℕ) :
    ((m.cuda.alloc part size).kill part (some m.cuda.next)).live = m.cuda.live := by
  have hhas : (m.cuda.alloc part size).has part (some m.cuda.next) = true := by
    rw [Cuda.has, Cuda.size?_alloc_self]
    rfl
  funext id
  rw [Cuda.kill, if_pos hhas]
  by_cases hid : id = m.cuda.next
  · rw [hid, hm m.cuda.next le_rfl]
    exact if_pos rfl
  · have hother : ¬ some m.cuda.next = some id := fun h => hid (Option.some.inj h).symm
    exact (if_neg hother).trans (Function.update_of_ne hid ..)

/-- From its work space on, a factorization loses it at every failure. -/
theorem withWorkSpace_iff (hm : m.cuda.Fresh) (hgpu : m.this.mOperationPlacement ≠ .CPU)
    {sh : Option ℕ} (hsolver : m.cuda.has .solver sh = true) (call : String) (size : ℕ)
    (info : ℤ) :
    Allocates m.cuda.live (exec (do
      let d_info ← RunContext.getInfoPointer
      errorCheck (.library "cuSOLVER" call) (compute .solver sh)
      waitIfSync
      onlyIf (some m.cuda.next ≠ none) (errorCheck (.cudaError (.release .deviceBuffer))
        (cudaFree .deviceBuffer (some m.cuda.next)))
      errorCheck (.cudaError .copyBack) (copyInfo d_info)
      return info) { m with cuda := m.cuda.alloc .deviceBuffer size }).2 ↔
    m.cuda.failing (.compute .solver) = false ∧
      ¬ (m.this.mRunMode = .SYNC ∧ m.cuda.failing .synchronize = true) ∧
      m.cuda.failing (.release .deviceBuffer) = false := by
  set start : Member := { m with cuda := m.cuda.alloc .deviceBuffer size } with hstart
  have hlost (t : Member) (ht : SameAllocations start t) : ¬ Allocates m.cuda.live t :=
    not_allocates_alloc hm ht
  have hsolver' : start.cuda.has .solver sh = true := by
    have hkeep : SameParts (fun part => part == .solver) m.cuda start.cuda :=
      SameParts.alloc rfl hm size
    rw [hkeep.has rfl, hsolver]
  have hinfo : exec RunContext.getInfoPointer start = (.ok m.this.mpInfo, start) :=
    exec_getMetadata (show start.this.mOperationPlacement ≠ .CPU from hgpu) _
  rw [exec_bind_ok hinfo]
  have hcompute : RaisesIf (errorCheck (.library "cuSOLVER" call) (compute .solver sh)) start
      (¬ m.cuda.failing (.compute .solver) = false) (fun _ t => SameAllocations start t)
      fun t => SameAllocations start t :=
    (errorCheck_raisesIf (compute_sameAllocations .solver sh start)).congr
      (not_congr (and_iff_right hsolver'))
  rw [hcompute.lost hlost fun _ t _ ht => ?_, not_not]
  have hwait : RaisesIf waitIfSync t (m.this.mRunMode = .SYNC ∧
      m.cuda.failing .synchronize = true) (fun _ u => SameAllocations start u)
      fun u => SameAllocations start u := by
    have hgpu' : t.this.mOperationPlacement ≠ .CPU := by
      rw [ht.this]
      exact hgpu
    have hmode : t.this.mRunMode = m.this.mRunMode := congrArg RunContext.mRunMode ht.this
    have hraises := waitIfSync_raisesIf hgpu'
    rw [hmode, ht.failing] at hraises
    exact hraises.mono (fun _ u hu => ht.trans hu) fun u hu => ht.trans hu
  rw [hwait.lost hlost fun _ u _ hu => ?_]
  have hfree : RaisesIf (onlyIf (some m.cuda.next ≠ none)
      (errorCheck (.cudaError (.release .deviceBuffer))
        (cudaFree .deviceBuffer (some m.cuda.next)))) u
      (m.cuda.failing (.release .deviceBuffer) = true)
      (fun _ v => Allocates m.cuda.live v) fun v => SameAllocations start v := by
    have hhas : u.cuda.has .deviceBuffer (some m.cuda.next) = true := by
      rw [hu.has, Cuda.has, Cuda.size?_alloc_self]
      rfl
    unfold RaisesIf
    rw [onlyIf, if_pos (Option.some_ne_none _), meets_errorCheck, meets_cudaFree (.inr hhas),
      hu.failing]
    split
    next h => exact ⟨h.2, hu⟩
    next h =>
      refine ⟨fun hfails => h ⟨Option.some_ne_none _, hfails⟩, ?_⟩
      have hkill : (u.cuda.kill .deviceBuffer (some m.cuda.next)).live =
          (start.cuda.kill .deviceBuffer (some m.cuda.next)).live := by
        rw [Cuda.kill, Cuda.kill, hu.has, hu.live]
        split
        · rfl
        · exact hu.live
      exact hkill.trans (live_alloc_kill hm .deviceBuffer size)
  rw [hfree.lost hlost fun _ v _ hv => iff_true_intro ((keeps_copyInfo _ info).left hv), and_true,
    Bool.not_eq_true]

theorem gpuFactorize_leaves_iff (hm : m.cuda.Fresh) (call query : String) (lwork info : ℤ) :
    LeavesMemory (gpuFactorize call query lwork info) m ↔ FactorizationReleases lwork m := by
  change Allocates m.cuda.live (exec (gpuFactorize call query lwork info) m).2 ↔ _
  unfold gpuFactorize FactorizationReleases
  apply (getMetadata_raisesIf RunContext.mCuSolverHandle m).spared
  · rintro t rfl
    rfl
  rintro sh t hgpu ⟨rfl, rfl⟩
  have hquery := errorCheck_raisesIf (e := .library "cuSOLVER" query)
    (bufferSize_sameAllocations t.this.mCuSolverHandle t)
  apply hquery.spared
  · exact fun u hu => hu.live
  intro _ u hfound hu
  rw [not_not] at hfound
  by_cases hwork : 0 < lwork
  · rw [if_pos hwork, or_iff_right (by omega)]
    have hnew := newMemory_raisesIf .deviceBuffer (8 * lwork).toNat
      (.cudaError (.acquire .deviceBuffer)) u
    rw [hu.failing] at hnew
    apply hnew.spared
    · rintro v rfl
      exact hu.live
    rintro _ v _ ⟨rfl, rfl⟩
    have hgpu' : u.this.mOperationPlacement ≠ .CPU := by rwa [hu.this]
    have hsolver : u.cuda.has .solver t.this.mCuSolverHandle = true := by
      rw [hu.has]
      exact hfound.1
    have hrest := withWorkSpace_iff (hu.fresh hm) hgpu' hsolver call (8 * lwork).toNat info
    have hmode : u.this.mRunMode = t.this.mRunMode := congrArg RunContext.mRunMode hu.this
    rw [hu.live, hmode, hu.failing, hu.failing, hu.failing] at hrest
    exact hrest
  · rw [if_neg hwork]
    apply iff_of_true _ (.inl (by omega))
    exact (keeps_withoutWorkSpace call _ info).left hu.live

end

end RCompss.Kernels
