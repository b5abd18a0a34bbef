import RCompss.Kernels.GpuLinalg
import RCompss.Kernels.Leaks
import RCompss.Library.Runs

/-! The device memory after the functions of `RcppGpuLinalg`, whatever fails in them. -/
namespace RCompss.Kernels
open RCompss.Library

/-- A routine reaches no device memory beyond its operands, and of its own leaves at most a work
space. -/
def RoutineLeaves {α : Type} (workSpace : Option ℕ) (routine : MemberM α) : Prop :=
  ∀ m, m.cuda.Fresh → Meets routine m (fun _ t => LeavesBehind workSpace [] m.cuda t.cuda)
    fun _ t => LeavesBehind workSpace [] m.cuda t.cuda

section
variable {α : Type} {cuda : Cuda} {workSpace : Option ℕ}

theorem SameBuffers.touch {part : Part} (hpart : .deviceBuffer ≠ part) (cuda : Cuda)
    (p : Option ℕ) : SameBuffers cuda (cuda.touch part p) where
  live := cuda.live_touch part p
  next := cuda.next_touch part p
  fails := by
    unfold Cuda.touch
    split <;> rfl
  misuses := Cuda.misuses_touch hpart

theorem SameBuffers.alloc {cuda cuda' : Cuda} (h : SameBuffers cuda cuda') (part : Part)
    (n : ℕ) : SameBuffers (cuda.alloc part n) (cuda'.alloc part n) where
  live := by
    unfold Cuda.alloc
    rw [h.live, h.next]
  next := congrArg (· + 1) h.next
  fails := h.fails
  misuses := h.misuses

theorem onlyUses_touch {part : Part} (hpart : .deviceBuffer ≠ part) (p : Option ℕ) :
    Keeps (OnlyUses cuda) (modifyCuda fun cuda => cuda.touch part p) :=
  keeps_modify fun m hm => SameBuffers.trans hm (.touch hpart m.cuda p)

theorem onlyUses_compute {part : Part} (hpart : .deviceBuffer ≠ part) (handle : Option ℕ) :
    Keeps (OnlyUses cuda) (compute part handle) := by
  apply (onlyUses_touch hpart handle).bind
  intro _
  apply keeps_get.bind
  intro _
  apply Keeps.ite _ (.pure false)
  apply Keeps.bind _ fun _ => .pure true
  exact keeps_modify fun m hm => SameBuffers.trans hm (.enqueue m.cuda _)

theorem onlyUses_bufferSize (sh : Option ℕ) : Keeps (OnlyUses cuda) (bufferSize sh) := by
  have hsolver : Part.deviceBuffer ≠ .solver := nofun
  exact (onlyUses_touch hsolver sh).bind fun _ => keeps_get.bind fun _ => .pure _

theorem onlyUses_copyInfo (d_info : Option ℕ) : Keeps (OnlyUses cuda) (copyInfo d_info) := by
  have hinfo : Part.deviceBuffer ≠ .info := nofun
  exact (onlyUses_touch hinfo d_info).bind fun _ => keeps_get.bind fun _ => .pure _

theorem onlyUses_blas (call : String) : Keeps (OnlyUses cuda) (gpuBlas call) := by
  have hblas : Part.deviceBuffer ≠ .blas := nofun
  apply (RunContext.keeps_getMetadata _).bind
  intro h
  apply (keeps_errorCheck (onlyUses_compute hblas h) _).bind
  intro _
  exact onlyUses_waitIfSync

theorem onlyUses_solve (call : String) (info : ℤ) : Keeps (OnlyUses cuda) (gpuSolve call info) := by
  have hsolver : Part.deviceBuffer ≠ .solver := nofun
  apply (RunContext.keeps_getMetadata _).bind
  intro sh
  apply (RunContext.keeps_getMetadata _).bind
  intro d_info
  apply (keeps_errorCheck (onlyUses_compute hsolver sh) _).bind
  intro _
  apply onlyUses_waitIfSync.bind
  intro _
  exact (keeps_errorCheck (onlyUses_copyInfo d_info) _).bind fun _ => .pure info

theorem routineLeaves_of_onlyUses {routine : MemberM α}
    (h : ∀ cuda, Keeps (OnlyUses cuda) routine) : RoutineLeaves workSpace routine := by
  intro m hm
  exact (h m.cuda m (.refl m.cuda)).mono (fun _ _ ht => .of_same hm ht) fun _ _ ht =>
    .of_same hm ht

/-- A routine of cuBLAS, as the functions call it. -/
theorem routineLeaves_blas (call : String) : RoutineLeaves workSpace (do
    gpuBlas call
    return (0 : ℤ)) :=
  routineLeaves_of_onlyUses fun _ => (onlyUses_blas call).bind fun _ => .pure 0

theorem routineLeaves_solve (call : String) (info : ℤ) :
    RoutineLeaves workSpace (gpuSolve call info) :=
  routineLeaves_of_onlyUses fun _ => onlyUses_solve call info

/-- The work space of a factorization, if it asks for one. -/
def workSpaceOf (lwork : ℤ) : Option ℕ := if 0 < lwork then some (8 * lwork).toNat else none

end

/-- What a factorization has besides when it comes to its call. -/
def HasWorkSpace (workSpace p : Option ℕ) (cuda cuda' : Cuda) : Prop :=
  p = none ∧ SameBuffers cuda cuda' ∨
    p = some cuda.next ∧ ∃ n ∈ workSpace, SameBuffers (cuda.alloc .deviceBuffer n) cuda'

namespace HasWorkSpace
variable {workSpace p : Option ℕ} {cuda cuda' cuda'' : Cuda}

theorem same (h : HasWorkSpace workSpace p cuda cuda') (h' : SameBuffers cuda' cuda'') :
    HasWorkSpace workSpace p cuda cuda'' := by
  rcases h with ⟨hp, hsame⟩ | ⟨hp, n, hn, hsame⟩
  · exact .inl ⟨hp, hsame.trans h'⟩
  · exact .inr ⟨hp, n, hn, hsame.trans h'⟩

/-- A factorization that stops there leaves its work space. -/
theorem left (h : HasWorkSpace workSpace p cuda cuda') (hm : cuda.Fresh) :
    LeavesBehind workSpace [] cuda cuda' := by
  rcases h with ⟨-, hsame⟩ | ⟨-, n, hn, hsame⟩
  · exact .of_same hm hsame
  · have hnext : cuda.next ≤ cuda'.next := by
      rw [hsame.next]
      exact Nat.le_succ cuda.next
    refine ⟨hsame.fresh (hm.alloc _ _), hnext, hsame.misuses, fun id => ?_⟩
    rw [hsame.live]
    by_cases hid : id = cuda.next
    · rw [hid]
      exact .inr ⟨le_rfl, n, hn, Function.update_self ..⟩
    · exact .inl (Function.update_of_ne hid ..)

/-- A pointer that `cudaFree` takes. -/
theorem freeable (h : HasWorkSpace workSpace p cuda cuda') :
    p = none ∨ cuda'.has .deviceBuffer p = true := by
  rcases h with ⟨hp, -⟩ | ⟨hp, n, -, hsame⟩
  · exact .inl hp
  · right
    rw [hp, Cuda.has, hsame.size?, Cuda.size?_alloc_self]
    rfl

/-- One that frees its work space leaves nothing. -/
theorem freed (h : HasWorkSpace workSpace p cuda cuda') (hm : cuda.Fresh) :
    LeavesBehind workSpace [] cuda (cuda'.kill .deviceBuffer p) := by
  rcases h with ⟨rfl, hsame⟩ | ⟨rfl, n, -, hsame⟩
  · exact .of_same hm hsame
  · have hown : cuda'.live cuda.next = some ⟨.deviceBuffer, n⟩ := by
      rw [hsame.live]
      exact Function.update_self ..
    refine ⟨(hsame.fresh (hm.alloc _ _)).kill _ _, ?_, fun hmis => ?_, fun id => .inl ?_⟩
    · rw [Cuda.next_kill, hsame.next]
      exact Nat.le_succ cuda.next
    · rw [Cuda.misuses_kill]
      exact hsame.misuses hmis
    · by_cases hid : id = cuda.next
      · rw [hid, Cuda.live_kill_self hown, hm cuda.next le_rfl]
      · rw [Cuda.live_kill_of_ne hid, hsame.live]
        exact Function.update_of_ne hid ..

end HasWorkSpace

/-- The end of a factorization, with its work space or without. -/
theorem factorizationEnd_meets {m t : Member} (hm : m.cuda.Fresh) {workSpace p : Option ℕ}
    (ht : HasWorkSpace workSpace p m.cuda t.cuda) (call : String) (sh : Option ℕ) (info : ℤ) :
    Meets (do
      let d_info ← RunContext.getInfoPointer
      errorCheck (.library "cuSOLVER" call) (compute .solver sh)
      waitIfSync
      onlyIf (p ≠ none)
        (errorCheck (.cudaError (.release .deviceBuffer)) (cudaFree .deviceBuffer p))
      errorCheck (.cudaError .copyBack) (copyInfo d_info)
      return info) t
      (fun _ t => LeavesBehind workSpace [] m.cuda t.cuda)
      fun _ t => LeavesBehind workSpace [] m.cuda t.cuda := by
  have hsolver : Part.deviceBuffer ≠ .solver := nofun
  have hleft (u : Member) (hu : OnlyUses t.cuda u) : LeavesBehind workSpace [] m.cuda u.cuda :=
    (ht.same hu).left hm
  rw [meets_bind]
  apply (RunContext.keeps_getMetadata _ t (SameBuffers.refl t.cuda : OnlyUses t.cuda t)).mono _
    fun _ u hu => hleft u hu
  intro d_info u hu
  rw [meets_bind]
  apply (keeps_errorCheck (onlyUses_compute hsolver sh) _ u hu).mono _ fun _ v hv => hleft v hv
  intro _ v hv
  rw [meets_bind]
  apply (onlyUses_waitIfSync v hv).mono _ fun _ w hw => hleft w hw
  intro _ w hw
  have hwork := ht.same hw
  have hend {x : Member} (hx : LeavesBehind workSpace [] m.cuda x.cuda) : Meets (do
      errorCheck (.cudaError .copyBack) (copyInfo d_info)
      return info) x (fun _ t => LeavesBehind workSpace [] m.cuda t.cuda)
      fun _ t => LeavesBehind workSpace [] m.cuda t.cuda := by
    have hcopy : Keeps (OnlyUses x.cuda) (do
        errorCheck (.cudaError .copyBack) (copyInfo d_info)
        return info) := (keeps_errorCheck (onlyUses_copyInfo d_info) _).bind fun _ => .pure info
    exact (hcopy x (.refl x.cuda)).mono (fun _ _ hy => hx.same hy) fun _ _ hy => hx.same hy
  rw [meets_bind, meets_onlyIf]
  split
  next =>
    rw [meets_errorCheck, meets_cudaFree hwork.freeable]
    split
    next => exact hwork.left hm
    next => exact hend (hwork.freed hm)
  next => exact hend (hwork.left hm)

theorem routineLeaves_factorize (call query : String) (lwork info : ℤ) :
    RoutineLeaves (workSpaceOf lwork) (gpuFactorize call query lwork info) := by
  intro m hm
  unfold gpuFactorize
  rw [meets_bind]
  apply (RunContext.keeps_getMetadata _ m (SameBuffers.refl m.cuda : OnlyUses m.cuda m)).mono _
    fun _ _ ht => .of_same hm ht
  intro sh t ht
  rw [meets_bind]
  apply (keeps_errorCheck (onlyUses_bufferSize sh) _ t ht).mono _ fun _ _ hu => .of_same hm hu
  intro _ u hu
  rw [meets_bind]
  split
  next hwork =>
    rw [newMemory, meets_bind, meets_get, meets_bind, meets_errorCheck, meets_acquire]
    split
    next => exact .of_same hm hu
    next =>
      rw [if_pos rfl, meets_pure]
      apply factorizationEnd_meets hm
      exact .inr ⟨congrArg some (SameBuffers.next hu), _, if_pos hwork, .alloc hu _ _⟩
  next hwork => exact factorizationEnd_meets hm (.inl ⟨rfl, hu⟩) call sh info

/-- What a step needs of the sizes of the arrays. -/
def ArrayStep.Fits (sizes : List ℕ) (workSpace : Option ℕ) : ArrayStep → Prop
  | compute operands routine _ =>
      (operands.Forall fun o => o.bytes ≤ sizes.getD o.array 0) ∧ RoutineLeaves workSpace routine
  | _ => True

section
variable {workSpace : Option ℕ} {sizes : List ℕ} {arrays : List ScopedGpuArray} {cuda : Cuda}

theorem holds_getD (h : List.Forall₂ (fun nbytes array => ScopedGpuArray.Holds cuda nbytes array)
    sizes arrays) (i : ℕ) : (arrays.getD i ⟨none, 0⟩).Holds cuda (sizes.getD i 0) := by
  induction h generalizing i with
  | nil => exact ⟨rfl, fun h => absurd h (lt_irrefl 0)⟩
  | cons head _ ih =>
    cases i with
    | zero => exact head
    | succ i => exact ih i

theorem ScopedGpuArray.Holds.reaches {array : ScopedGpuArray} {nbytes bytes : ℕ}
    (h : array.Holds cuda nbytes) (hpos : 0 < bytes) (hle : bytes ≤ nbytes) :
    cuda.reaches array.ptr bytes = true := by
  rw [Cuda.reaches, h.2 (by omega)]
  exact decide_eq_true hle

/-- A transfer of no bytes reaches nothing. -/
theorem onlyUses_transfer {dst src : Option ℕ} {size : ℕ} {transfer : MemoryTransfer}
    (h : 0 < size → ∀ a ∈ transfer.accesses dst src size, cuda.reaches a.1 a.2 = true) :
    Keeps (OnlyUses cuda) (MemoryHandler.memCpy dst src size transfer) := by
  rcases Nat.eq_zero_or_pos size with hzero | hpos
  · rw [MemoryHandler.memCpy, onlyIf, if_neg fun hsize => hsize.1 hzero]
    exact .pure ()
  · exact onlyUses_memCpy (h hpos)

theorem onlyUses_accessesOf {accesses : List (Option ℕ × ℕ)}
    (h : ∀ a ∈ accesses, 0 < a.2 → cuda.reaches a.1 a.2 = true) :
    Keeps (OnlyUses cuda) (modifyCuda fun cuda => cuda.accessAll (accessesOf accesses)) := by
  apply keeps_modify
  intro m hm
  have hreach (a : Option ℕ × ℕ) (ha : a ∈ accessesOf accesses) :
      m.cuda.reaches a.1 a.2 = true := by
    obtain ⟨hmem, hpos⟩ := List.mem_filter.mp ha
    rw [SameBuffers.reaches hm, h a hmem (of_decide_eq_true hpos)]
  change SameBuffers cuda (m.cuda.accessAll (accessesOf accesses))
  rw [SameBuffers.accessAll hreach]
  exact hm

theorem onlyUses_cudaMemset {p : Option ℕ} {bytes : ℕ}
    (h : 0 < bytes → cuda.reaches p bytes = true) :
    Keeps (OnlyUses cuda) (cudaMemset p bytes) := by
  have haccess : ∀ a ∈ [(p, bytes)], 0 < a.2 → cuda.reaches a.1 a.2 = true := by
    intro a ha
    rw [List.mem_singleton.mp ha]
    exact h
  apply keeps_get.bind
  intro _
  exact (Keeps.pure false).ite ((onlyUses_accessesOf haccess).bind fun _ => .pure true)

/-- A call that leaves the device memory alone. -/
theorem unwinds_onOperationContext {α : Type} {x : MemberM α} {m t : Member}
    (ht : LeavesBehind workSpace [] m.cuda t.cuda) (h : Keeps (OnlyUses t.cuda) x) :
    Unwinds unwinding (onOperationContext x) t
      fun t => LeavesBehind workSpace [] m.cuda t.cuda := by
  unfold Unwinds
  rw [meets_onOperationContext]
  apply (h t (.refl t.cuda)).mono
  · exact fun _ u hu => (ht.same hu).same (.tick u.cuda)
  · exact fun _ u hu _ => (ht.same hu).same (.tick u.cuda)

theorem unwinds_newRObject {m t : Member} (ht : LeavesBehind workSpace [] m.cuda t.cuda) :
    Unwinds unwinding (likeBinding newNumericVector) t
      fun t => LeavesBehind workSpace [] m.cuda t.cuda := by
  have htick := ht.same (.tick t.cuda)
  unfold Unwinds newNumericVector
  rw [meets_likeBinding, meets_bind, meets_get, meets_bind, meets_set, meets_onlyIf]
  split
  next => exact fun _ => htick
  next => exact htick

/-- A routine on arrays of the sizes its operands need. -/
theorem unwinds_onOperands {α : Type} {routine : MemberM α} {accesses : List (Option ℕ × ℕ)}
    {m t : Member} (ht : LeavesBehind workSpace [] m.cuda t.cuda)
    (haccess : ∀ a ∈ accesses, 0 < a.2 → t.cuda.reaches a.1 a.2 = true)
    (hroutine : RoutineLeaves workSpace routine) :
    Unwinds unwinding (onOperationContext (onOperands accesses routine)) t
      fun t => LeavesBehind workSpace [] m.cuda t.cuda := by
  unfold Unwinds onOperands
  rw [meets_onOperationContext, meets_bind]
  apply (onlyUses_accessesOf haccess t (.refl t.cuda)).mono
  · intro _ u hu
    have hleft := ht.same hu
    apply (hroutine u hleft.fresh).mono
    · exact fun _ v hv => (hleft.trans hv).same (.tick v.cuda)
    · exact fun _ v hv _ => (hleft.trans hv).same (.tick v.cuda)
  · exact fun _ u hu _ => (ht.same hu).same (.tick u.cuda)

/-- On arrays that are there a step reaches no other memory, and leaves at most a work space. -/
theorem ArrayStep.unwinds {step : ArrayStep} {m t : Member} (hm : m.cuda.Fresh)
    (harrays : List.Forall₂ (fun nbytes array => ScopedGpuArray.Holds m.cuda nbytes array)
      sizes arrays) (hfits : step.Fits sizes workSpace)
    (ht : LeavesBehind workSpace [] m.cuda t.cuda) :
    Unwinds unwinding (step.run arrays) t
      fun t => LeavesBehind workSpace [] m.cuda t.cuda := by
  have hholds (i : ℕ) : (arrays.getD i ⟨none, 0⟩).Holds t.cuda (sizes.getD i 0) :=
    (holds_getD harrays i).mono fun _ _ hp => ht.size? hm hp
  cases step with
  | upload i =>
    apply unwinds_onOperationContext ht
    apply onlyUses_transfer
    intro hpos a ha
    rw [List.mem_singleton.mp ha]
    exact (hholds i).reaches hpos (hholds i).1.le
  | memset i =>
    have hset : Keeps (OnlyUses t.cuda) (cudaMemset (arrays.getD i ⟨none, 0⟩).ptr
        (arrays.getD i ⟨none, 0⟩).nbytes) :=
      onlyUses_cudaMemset fun hpos => (hholds i).reaches hpos (hholds i).1.le
    apply (unwinds_onOperationContext ht hset).bind
    intro succeeded u hu
    unfold Unwinds
    rw [meets_onlyIf]
    split
    next => exact fun _ => hu
    next => exact hu
  | compute operands routine complaint =>
    obtain ⟨hsizes, hroutine⟩ := hfits
    have haccess : ∀ a ∈ operands.map fun o => ((arrays.getD o.array ⟨none, 0⟩).ptr, o.bytes),
        0 < a.2 → t.cuda.reaches a.1 a.2 = true := by
      intro a ha hpos
      obtain ⟨o, ho, rfl⟩ := List.mem_map.mp ha
      exact (hholds o.array).reaches hpos (List.forall_iff_forall_mem.mp hsizes o ho)
    apply (unwinds_onOperands ht haccess hroutine).bind
    intro info u hu
    split
    next => exact hu
    next => exact fun _ => hu
  | stop message => exact fun _ => ht
  | newRObject => exact unwinds_newRObject ht
  | newHostVector bytes =>
    unfold Unwinds ArrayStep.run
    rw [meets_bind, meets_get, meets_onlyIf]
    split
    next => exact fun _ => ht
    next => exact ht
  | download i =>
    apply unwinds_onOperationContext ht
    apply onlyUses_transfer
    intro hpos a ha
    rw [List.mem_singleton.mp ha]
    exact (hholds i).reaches hpos (hholds i).1.le

/-- What a function plans fits its arrays. Where there can be a work space, `held` are those. -/
structure ArrayPlan.Fits (workSpace : Option ℕ) (held : List ℕ) (p : ArrayPlan) : Prop where
  steps : p.steps.Forall fun step => step.Fits p.arrays workSpace
  arrays : workSpace.isSome → p.arrays = held

theorem ArrayPlan.Fits.withoutWorkSpace {p : ArrayPlan} {held : List ℕ}
    (h : p.steps.Forall fun step => step.Fits p.arrays none) : p.Fits none held :=
  ⟨h, fun hsome => absurd hsome Bool.false_ne_true⟩

/-- A part that leaves the device memory alone, with what holds of its answer. -/
def LeavesBuffers {α : Type} (x : LinalgM α) (Q : α → Prop) : Prop :=
  ∀ m, Meets x m (fun a t => Q a ∧ SameBuffers m.cuda t.cuda) fun _ t => SameBuffers m.cuda t.cuda

/-- Where nothing is left it does not matter which arrays there were. -/
theorem LeavesBehind.held {cuda' : Cuda} {held : List ℕ}
    (h : LeavesBehind workSpace sizes cuda cuda') (hheld : workSpace.isSome → sizes = held) :
    LeavesBehind workSpace held cuda cuda' := by
  cases workSpace with
  | some n =>
    rw [← hheld rfl]
    exact h
  | none =>
    refine ⟨h.fresh, h.next, h.misuses, fun id => .inl ?_⟩
    rcases h.live id with hsame | ⟨-, n, hn, -⟩
    · exact hsame
    · contradiction

/-- A function whose plan fits leaves of the device memory what was there, and at most a work
space besides. -/
theorem linalg_unwinds {held : List ℕ} {plan : LinalgM ArrayPlan} {m : Member}
    (h : LeavesBuffers plan fun p => p.Fits workSpace held) (hm : m.cuda.Fresh) (name : String)
    (hasContext : Bool) :
    Unwinds unwinding (linalg name hasContext plan) m
      fun t => LeavesBehind workSpace held m.cuda t.cuda := by
  have hsame (t : Member) (ht : SameBuffers m.cuda t.cuda) :
      LeavesBehind workSpace held m.cuda t.cuda := .of_same hm ht
  apply Unwinds.rethrow fun e => LinalgError.passes_labelled _ e
  unfold Unwinds
  rw [meets_bind, meets_get, meets_bind]
  rcases rcompssGpuLinalgRequireContext
    (if hasContext then some m.this.mOperationPlacement else none) with what | _
  · exact fun _ => hsame m (.refl m.cuda)
  rw [checked, meets_pure, meets_bind]
  refine (h m).mono (fun p t ht => ?_) fun _ t ht _ => hsame t ht
  obtain ⟨hfits, hplan⟩ := ht
  have ht : t.cuda.Fresh := hplan.fresh hm
  have hscopes : Unwinds unwinding (inScopes unwinding ScopedGpuArray.construct
      ScopedGpuArray.reset p.arrays fun arrays => do
        onlyIf (arrays.all ScopedGpuArray.ok = false)
          (stopLinalg ("GPU allocation failed for " ++ name ++ "."))
        p.steps.forM (ArrayStep.run arrays)) t
      fun u => LeavesBehind workSpace p.arrays t.cuda u.cuda := by
    apply (ScopedGpuArray.scopeRule workSpace).unwinds p.arrays ht
    intro arrays u hacquired hu
    obtain ⟨hholds, -⟩ := ScopedGpuArray.holds_of_acquired hacquired ht
    have hleft : LeavesBehind workSpace [] u.cuda u.cuda := .of_same hu (.refl u.cuda)
    unfold Unwinds
    rw [meets_bind, meets_onlyIf]
    have hsteps : Unwinds unwinding (p.steps.forM (ArrayStep.run arrays)) u
        fun v => LeavesBehind workSpace [] u.cuda v.cuda := by
      refine Unwinds.forM p.steps (fun step hstep v hv => ?_) hleft
      exact ArrayStep.unwinds hu hholds (List.forall_iff_forall_mem.mp hfits.steps step hstep) hv
    split
    next => exact fun _ => hleft
    next => exact hsteps
  exact hscopes.mono fun u hu => (hu.held hfits.arrays).after hplan

end

namespace LeavesBuffers
variable {α β : Type}

theorem pure {Q : α → Prop} {a : α} (h : Q a) : LeavesBuffers (Pure.pure a : LinalgM α) Q :=
  fun m => ⟨h, .refl m.cuda⟩

theorem bind {x : LinalgM β} {f : β → LinalgM α} {P : β → Prop} {Q : α → Prop}
    (hx : LeavesBuffers x P) (hf : ∀ b, P b → LeavesBuffers (f b) Q) :
    LeavesBuffers (x >>= f) Q := by
  intro m
  rw [meets_bind]
  refine (hx m).imp fun b t ht => ?_
  exact (hf b ht.1 t).mono (fun _ _ hu => ⟨hu.1, ht.2.trans hu.2⟩) fun _ _ hu => ht.2.trans hu

/-- A check that stops the function, and what follows where it does not. -/
theorem check {c : Prop} {_ : Decidable c} {message : String} {f : Unit → LinalgM α}
    {Q : α → Prop} (hf : ¬ c → LeavesBuffers (f ()) Q) :
    LeavesBuffers (onlyIf c (stopLinalg message) >>= f) Q := by
  intro m
  rw [meets_bind, meets_onlyIf]
  split
  next => exact SameBuffers.refl m.cuda
  next h => exact hf h m

theorem checked (x : Except String α) : LeavesBuffers (Kernels.checked x) fun a => x = .ok a := by
  intro m
  cases x with
  | error what => exact SameBuffers.refl m.cuda
  | ok a => exact ⟨rfl, .refl m.cuda⟩

theorem parseFlag (message : String) (meaning : Char → Option Bool) (flag : Text) :
    LeavesBuffers (Kernels.parseFlag message meaning flag) fun b =>
      flagValue meaning flag = some b := by
  intro m
  unfold Kernels.parseFlag
  split
  next b hb => exact ⟨hb, .refl m.cuda⟩
  next => exact SameBuffers.refl m.cuda

theorem newRObject : LeavesBuffers (likeBinding newNumericVector) fun _ => True := by
  intro m
  unfold newNumericVector
  rw [meets_likeBinding, meets_bind, meets_get, meets_bind, meets_set, meets_onlyIf]
  split
  next => exact SameBuffers.tick m.cuda
  next => exact ⟨trivial, .tick m.cuda⟩

/-- A right-hand side with `n` rows. -/
theorem columns (name : String) {n : ℕ} (hn : n < 2 ^ 31) (B : RightHandSide α) :
    LeavesBuffers (B.columns name n) fun nrhs => n * nrhs ≤ 2 ^ 52 := by
  cases B with
  | matrix B =>
    apply check
    intro hrows
    apply LeavesBuffers.pure
    rw [← not_not.mp hrows]
    exact B.length_le
  | vector b =>
    apply check
    intro _
    apply newRObject.bind
    intro _ _
    have hone : n * 1 ≤ 2 ^ 52 := by omega
    exact LeavesBuffers.pure hone

end LeavesBuffers

namespace Operand

@[simp] theorem array_matrix (array rows cols ld : ℕ) :
    (matrix array rows cols ld).array = array := rfl

@[simp] theorem array_vector (array : ℕ) (n : ℤ) (width : ℕ) :
    (vector array n width).array = array := rfl

theorem bytes_matrix (array rows cols : ℕ) :
    (matrix array rows cols rows).bytes = rows * cols * 8 := by
  unfold bytes matrix
  split
  next h =>
    rcases h with rfl | rfl
    · simp
    · simp
  next h =>
    obtain ⟨cols, rfl⟩ := Nat.exists_eq_succ_of_ne_zero fun hcols => h (.inr hcols)
    rw [Nat.succ_sub_one, ← Nat.mul_succ]

theorem bytes_vector (array : ℕ) (n : ℤ) (width : ℕ) :
    (vector array n width).bytes = n.toNat * width := by
  unfold bytes vector
  split
  next h =>
    rcases h with hn | hone
    · have hzero : n.toNat = 0 := hn
      rw [hzero, Nat.zero_mul]
    · contradiction
  next => simp

/-- A matrix that R can have fits the array made for it. -/
theorem matrix_fits {sizes : List ℕ} {array rows cols : ℕ}
    (harray : sizes[array]? = some (matrixBytes rows cols)) (h : rows * cols * 8 < 2 ^ 64) :
    (matrix array rows cols rows).bytes ≤ sizes.getD (matrix array rows cols rows).array 0 := by
  rw [bytes_matrix, array_matrix, List.getD_eq_getElem?_getD, harray, matrixBytes,
    Nat.mod_eq_of_lt h]
  rfl

/-- And so does a vector of a length that `int` can have. -/
theorem vector_fits {sizes : List ℕ} {array width : ℕ} {n : ℤ}
    (harray : sizes[array]? = some (vectorBytes n width)) (hn : n < 2 ^ 31)
    (hwidth : width ≤ 8) :
    (vector array n width).bytes ≤ sizes.getD (vector array n width).array 0 := by
  rw [bytes_vector, array_vector, List.getD_eq_getElem?_getD, harray, vectorBytes,
    Option.getD_some]
  rcases lt_or_ge n 0 with hneg | hpos
  · rw [Int.toNat_of_nonpos hneg.le]
    omega
  · have hsize : n.toNat * width < 2 ^ 64 := by
      calc n.toNat * width ≤ n.toNat * 8 := Nat.mul_le_mul_left _ hwidth
        _ < 2 ^ 64 := by omega
    have hmod : (n % 2 ^ 64).toNat = n.toNat := by omega
    rw [hmod, Nat.mod_eq_of_lt hsize]

end Operand

theorem intLength_lt {α : Type} (x : List α) : intLength x < 2 ^ 31 := by
  have hlt := Int.bmod_lt (x := x.length) (m := 2 ^ 32) (by omega)
  unfold intLength
  omega

theorem forall_ite {α : Type} {P : α → Prop} {c : Prop} {_ : Decidable c} {as bs : List α}
    (has : as.Forall P) (hbs : bs.Forall P) : (if c then as else bs).Forall P := by
  split
  · exact has
  · exact hbs

theorem RMatrix.bytes_lt {α : Type} (A : RMatrix α) : A.nrow * A.ncol * 8 < 2 ^ 64 := by
  have hlength := A.length_le
  omega

namespace GpuLinalg
variable {α : Type}

theorem sameLength_then {x y : List α} {f : Unit → LinalgM ArrayPlan} {Q : ArrayPlan → Prop}
    (h : LeavesBuffers (f ()) Q) : LeavesBuffers (sameLength x y >>= f) Q :=
  LeavesBuffers.check fun _ => h

theorem daxpy_fits (x y : List α) :
    LeavesBuffers (rcompssGpuDaxpy x y) fun p => p.Fits none [] := by
  have hn := intLength_lt x
  apply sameLength_then
  apply LeavesBuffers.pure
  apply ArrayPlan.Fits.withoutWorkSpace
  exact ⟨trivial, trivial, ⟨⟨Operand.vector_fits rfl hn le_rfl,
    Operand.vector_fits rfl hn le_rfl⟩, routineLeaves_blas _⟩, trivial, trivial⟩

theorem ddot_fits (x y : List α) :
    LeavesBuffers (rcompssGpuDdot x y) fun p => p.Fits none [] := by
  have hn := intLength_lt x
  apply sameLength_then
  apply LeavesBuffers.pure
  apply ArrayPlan.Fits.withoutWorkSpace
  exact ⟨trivial, trivial, ⟨Operand.vector_fits rfl hn le_rfl,
    Operand.vector_fits rfl hn le_rfl⟩, routineLeaves_blas _⟩

theorem dnrm2_fits (x : List α) :
    LeavesBuffers (rcompssGpuDnrm2 x) fun p => p.Fits none [] := by
  have hn := intLength_lt x
  apply LeavesBuffers.pure
  apply ArrayPlan.Fits.withoutWorkSpace
  exact ⟨trivial, Operand.vector_fits rfl hn le_rfl, routineLeaves_blas _⟩

theorem dscal_fits (x : List α) :
    LeavesBuffers (rcompssGpuDscal x) fun p => p.Fits none [] := by
  have hn := intLength_lt x
  apply LeavesBuffers.pure
  apply ArrayPlan.Fits.withoutWorkSpace
  exact ⟨trivial, ⟨Operand.vector_fits rfl hn le_rfl, routineLeaves_blas _⟩, trivial, trivial⟩

theorem dpotrf_fits (A : RMatrix α) (lwork info : ℤ) :
    LeavesBuffers (rcompssGpuDpotrf A lwork info) fun p =>
      p.Fits (workSpaceOf lwork) [matrixBytes A.nrow A.nrow] := by
  have hA := A.bytes_lt
  apply LeavesBuffers.check
  intro hsquare
  rw [not_not.mp hsquare] at hA
  apply LeavesBuffers.pure
  constructor
  · exact ⟨trivial, ⟨Operand.matrix_fits rfl hA, routineLeaves_factorize _ _ lwork info⟩,
      trivial, trivial⟩
  · exact fun _ => rfl

theorem dgetrf_fits (A : RMatrix α) (lwork info : ℤ) :
    LeavesBuffers (rcompssGpuDgetrf A lwork info) fun p => p.Fits (workSpaceOf lwork)
      [matrixBytes A.nrow A.ncol, vectorBytes (min A.nrow A.ncol : ℕ) 4] := by
  have hpivot : ((min A.nrow A.ncol : ℕ) : ℤ) < 2 ^ 31 := by
    have hrows := A.nrow_lt
    omega
  apply LeavesBuffers.pure
  constructor
  · exact ⟨trivial, ⟨⟨Operand.matrix_fits rfl A.bytes_lt,
      Operand.vector_fits rfl hpivot (by decide)⟩, routineLeaves_factorize _ _ lwork info⟩,
      trivial, trivial, trivial, trivial, trivial, trivial⟩
  · exact fun _ => rfl

/-- Both functions for triangular matrices go on with a square `A`. -/
theorem triangular_leaves (name : String) (A B : RMatrix α) (side uplo trans diag : Text) :
    LeavesBuffers (triangular name A B side uplo trans diag) fun a_size =>
      (Operand.matrix 0 a_size a_size A.nrow).bytes ≤ matrixBytes A.nrow A.ncol := by
  have hA := A.bytes_lt
  apply (LeavesBuffers.parseFlag _ sideLeft side).bind
  intro side_left _
  apply (LeavesBuffers.parseFlag _ uploUpper uplo).bind
  intro _ _
  apply (LeavesBuffers.parseFlag _ transposes trans).bind
  intro _ _
  apply (LeavesBuffers.parseFlag _ unitDiag diag).bind
  intro _ _
  apply LeavesBuffers.check
  intro hsize
  have hrows := not_not.mp fun h => hsize (.inl h)
  have hcols := not_not.mp fun h => hsize (.inr h)
  rw [hrows, hcols] at hA
  apply LeavesBuffers.pure
  rw [hrows, hcols, Operand.bytes_matrix, matrixBytes, Nat.mod_eq_of_lt hA]

theorem dtrmm_fits (A B : RMatrix α) (side uplo trans diag : Text) :
    LeavesBuffers (rcompssGpuDtrmm A B side uplo trans diag) fun p => p.Fits none [] := by
  apply (triangular_leaves _ A B side uplo trans diag).bind
  intro a_size hA
  apply LeavesBuffers.pure
  apply ArrayPlan.Fits.withoutWorkSpace
  exact ⟨trivial, trivial, ⟨⟨hA, Operand.matrix_fits rfl B.bytes_lt,
    Operand.matrix_fits rfl B.bytes_lt⟩, routineLeaves_blas _⟩, trivial, trivial⟩

theorem dtrsm_fits (A B : RMatrix α) (side uplo trans diag : Text) :
    LeavesBuffers (rcompssGpuDtrsm A B side uplo trans diag) fun p => p.Fits none [] := by
  apply (triangular_leaves _ A B side uplo trans diag).bind
  intro a_size hA
  apply LeavesBuffers.pure
  apply ArrayPlan.Fits.withoutWorkSpace
  exact ⟨trivial, trivial, ⟨⟨hA, Operand.matrix_fits rfl B.bytes_lt⟩, routineLeaves_blas _⟩,
    trivial, trivial⟩

theorem dgetrs_fits (LU : RMatrix α) (pivot : List ℤ) (B : RightHandSide α) (info : ℤ) :
    LeavesBuffers (rcompssGpuDgetrs LU pivot B info) fun p => p.Fits none [] := by
  have hLU := LU.bytes_lt
  have hn : (LU.nrow : ℤ) < 2 ^ 31 := by
    have hrows := LU.nrow_lt
    omega
  apply LeavesBuffers.check
  intro hsquare
  rw [not_not.mp hsquare] at hLU
  apply LeavesBuffers.check
  intro _
  apply LeavesBuffers.newRObject.bind
  intro _ _
  apply (LeavesBuffers.columns _ LU.nrow_lt B).bind
  intro nrhs hlength
  have hB : LU.nrow * nrhs * 8 < 2 ^ 64 := by omega
  apply LeavesBuffers.pure
  apply ArrayPlan.Fits.withoutWorkSpace
  exact ⟨trivial, trivial, trivial, trivial, ⟨⟨Operand.matrix_fits rfl hLU,
    Operand.vector_fits rfl hn (by decide), Operand.matrix_fits rfl hB⟩,
    routineLeaves_solve _ info⟩, trivial, trivial⟩

theorem dpotrs_fits (chol : RMatrix α) (B : RightHandSide α) (info : ℤ) :
    LeavesBuffers (rcompssGpuDpotrs chol B info) fun p => p.Fits none [] := by
  have hchol := chol.bytes_lt
  apply LeavesBuffers.check
  intro hsquare
  rw [not_not.mp hsquare] at hchol
  apply LeavesBuffers.newRObject.bind
  intro _ _
  apply (LeavesBuffers.columns _ chol.nrow_lt B).bind
  intro nrhs hlength
  have hB : chol.nrow * nrhs * 8 < 2 ^ 64 := by omega
  apply LeavesBuffers.pure
  apply ArrayPlan.Fits.withoutWorkSpace
  exact ⟨trivial, trivial, ⟨⟨Operand.matrix_fits rfl hchol, Operand.matrix_fits rfl hB⟩,
    routineLeaves_solve _ info⟩, trivial, trivial⟩

section
variable [Zero α] [DecidableEq α]

theorem dgemm_fits (A B : RMatrix α) (transA transB : Bool) (beta : α)
    (hresult : A.opRows transA * B.opCols transB * 8 < 2 ^ 64) :
    LeavesBuffers (GpuLinalg.rcompssGpuDgemm A B transA transB beta) fun p => p.Fits none [] := by
  apply (LeavesBuffers.checked _).bind
  intro d hd
  by_cases h : A.Conformable B.toNumericMatrix transA transB
  · rw [dgemmDims_of_conformable h] at hd
    cases hd
    have hrowsB : (if transB then B.opCols transB else A.opCols transA) = B.nrow := by
      rw [NumericMatrix.Conformable] at h
      rw [h]
      cases transB <;> rfl
    have hcolsB : (if transB then A.opCols transA else B.opCols transB) = B.ncol := by
      rw [NumericMatrix.Conformable] at h
      rw [h]
      cases transB <;> rfl
    have hrowsA : (if transA then A.opCols transA else A.opRows transA) = A.nrow := by
      cases transA <;> rfl
    have hcolsA : (if transA then A.opRows transA else A.opCols transA) = A.ncol := by
      cases transA <;> rfl
    apply LeavesBuffers.pure
    apply ArrayPlan.Fits.withoutWorkSpace
    simp only [GemmDims.storedRowsA, GemmDims.storedColsA, GemmDims.storedRowsB,
      GemmDims.storedColsB, hrowsA, hcolsA, hrowsB, hcolsB, List.forall_append]
    refine ⟨⟨⟨trivial, trivial⟩, ?_⟩, ⟨⟨Operand.matrix_fits rfl A.bytes_lt,
      Operand.matrix_fits rfl B.bytes_lt, Operand.matrix_fits rfl hresult⟩,
      routineLeaves_blas _⟩, trivial, trivial⟩
    exact forall_ite trivial trivial
  · obtain ⟨e, he⟩ := dgemmDims_of_not_conformable h
    rw [he] at hd
    contradiction

theorem dgemv_fits (A : RMatrix α) (x : List α) (trans : Bool) (beta : α)
    (y0 : Option (List α)) :
    LeavesBuffers (rcompssGpuDgemv A x trans beta y0) fun p => p.Fits none [] := by
  have hlen (n : ℕ) (h : n < 2 ^ 31) : (n : ℤ) < 2 ^ 31 := by omega
  have hx : (if trans then A.nrow else A.ncol) < 2 ^ 31 := by
    split
    · exact A.nrow_lt
    · exact A.ncol_lt
  have hy : (if trans then A.ncol else A.nrow) < 2 ^ 31 := by
    split
    · exact A.ncol_lt
    · exact A.nrow_lt
  apply LeavesBuffers.check
  intro _
  apply LeavesBuffers.pure
  apply ArrayPlan.Fits.withoutWorkSpace
  simp only [List.forall_append]
  refine ⟨⟨⟨trivial, trivial⟩, ?_⟩, ⟨⟨Operand.matrix_fits rfl A.bytes_lt,
    Operand.vector_fits rfl (hlen _ hx) le_rfl, Operand.vector_fits rfl (hlen _ hy) le_rfl⟩,
    routineLeaves_blas _⟩, trivial, trivial⟩
  refine forall_ite ?_ trivial
  cases y0 with
  | none => exact trivial
  | some y0v => exact forall_ite trivial trivial

theorem dsyrk_fits (A : RMatrix α) (uplo trans : Text) (beta : α) (C0 : Option (RMatrix α))
    (hresult : ∀ transA, flagValue transposes trans = some transA →
      A.opRows transA * A.opRows transA * 8 < 2 ^ 64) :
    LeavesBuffers (rcompssGpuDsyrk A uplo trans beta C0) fun p => p.Fits none [] := by
  apply (LeavesBuffers.parseFlag _ uploUpper uplo).bind
  intro _ _
  apply (LeavesBuffers.parseFlag _ transposes trans).bind
  intro transA htrans
  apply LeavesBuffers.check
  intro _
  have hC : (if transA then A.ncol else A.nrow) * (if transA then A.ncol else A.nrow) * 8 <
      2 ^ 64 := hresult transA htrans
  apply LeavesBuffers.pure
  apply ArrayPlan.Fits.withoutWorkSpace
  simp only [List.forall_append]
  refine ⟨⟨trivial, ?_⟩, ⟨⟨Operand.matrix_fits rfl A.bytes_lt,
    Operand.matrix_fits rfl hC⟩, routineLeaves_blas _⟩, trivial, trivial⟩
  refine forall_ite ?_ trivial
  cases C0 with
  | none => exact trivial
  | some C0m => exact forall_ite trivial trivial

end

end GpuLinalg

namespace LinalgCall
variable {α : Type} [Zero α] [DecidableEq α]

/-- The work space of a factorization. -/
def workSpace : LinalgCall α → Option ℕ
  | dpotrf _ lwork _ => workSpaceOf lwork
  | dgetrf _ lwork _ => workSpaceOf lwork
  | _ => none

/-- The arrays of a factorization. -/
def held : LinalgCall α → List ℕ
  | dpotrf A _ _ => [matrixBytes A.nrow A.nrow]
  | dgetrf A _ _ => [matrixBytes A.nrow A.ncol, vectorBytes (min A.nrow A.ncol : ℕ) 4]
  | _ => []

/-- A result that is larger than its arguments does not wrap `size_t` around. -/
def ResultFits : LinalgCall α → Prop
  | dgemm A B transA transB _ => A.opRows transA * B.opCols transB * 8 < 2 ^ 64
  | dsyrk A _ transA _ _ => ∀ transposed, flagValue transposes transA = some transposed →
      A.opRows transposed * A.opRows transposed * 8 < 2 ^ 64
  | _ => True

/-- A call leaves of the device memory what was there, and at most its work space besides, save
when R runs out of memory or a destructor raises. -/
theorem unwinds (call : LinalgCall α) (hcall : call.ResultFits) (hasContext : Bool)
    {m : Member} (hm : m.cuda.Fresh) : Unwinds unwinding (call.run hasContext) m
      fun t => LeavesBehind call.workSpace call.held m.cuda t.cuda := by
  cases call with
  | dgemm A B transA transB beta =>
    exact linalg_unwinds (GpuLinalg.dgemm_fits A B transA transB beta hcall) hm _ hasContext
  | daxpy x y => exact linalg_unwinds (GpuLinalg.daxpy_fits x y) hm _ hasContext
  | dpotrf A lwork info =>
    exact linalg_unwinds (GpuLinalg.dpotrf_fits A lwork info) hm _ hasContext
  | dgemv A x transA beta y0 =>
    exact linalg_unwinds (GpuLinalg.dgemv_fits A x transA beta y0) hm _ hasContext
  | ddot x y => exact linalg_unwinds (GpuLinalg.ddot_fits x y) hm _ hasContext
  | dnrm2 x => exact linalg_unwinds (GpuLinalg.dnrm2_fits x) hm _ hasContext
  | dscal x => exact linalg_unwinds (GpuLinalg.dscal_fits x) hm _ hasContext
  | dtrmm A B side uplo transA diag =>
    exact linalg_unwinds (GpuLinalg.dtrmm_fits A B side uplo transA diag) hm _ hasContext
  | dtrsm A B side uplo transA diag =>
    exact linalg_unwinds (GpuLinalg.dtrsm_fits A B side uplo transA diag) hm _ hasContext
  | dsyrk A uplo transA beta C0 =>
    exact linalg_unwinds (GpuLinalg.dsyrk_fits A uplo transA beta C0 hcall) hm _ hasContext
  | dgetrf A lwork info =>
    exact linalg_unwinds (GpuLinalg.dgetrf_fits A lwork info) hm _ hasContext
  | dgetrs LU pivot B info =>
    exact linalg_unwinds (GpuLinalg.dgetrs_fits LU pivot B info) hm _ hasContext
  | dpotrs chol B info => exact linalg_unwinds (GpuLinalg.dpotrs_fits chol B info) hm _ hasContext

/-- The state after a call, with an operation context or without. -/
def step (call : Bool × LinalgCall α) (m : Member) : Member := (exec (call.2.run call.1) m).2

/-- Calls after which R and the process go on. -/
def Allowed (m : Member) (call : Bool × LinalgCall α) : Prop :=
  call.2.ResultFits ∧ ∀ e, (exec (call.2.run call.1) m).1 = .error e → e.passes = false

/-- What is there besides after a call is its work space, and none of its arrays. -/
def LostIn (m : Member) (call : LinalgCall α) (id : ℕ) (lost : Option Resource) : Prop :=
  m.cuda.next + (call.held.filter fun n => 0 < n).length ≤ id ∧
    ∃ n ∈ call.workSpace, lost = some ⟨.deviceBuffer, n⟩

theorem step_leaves {m : Member} {call : Bool × LinalgCall α} (hm : m.cuda.Fresh)
    (hcall : Allowed m call) :
    LeavesBehind call.2.workSpace call.2.held m.cuda (step call m).cuda := by
  obtain ⟨a, t, hrun, ht⟩ | ⟨e, t, hrun, ht⟩ := Meets.run (unwinds call.2 hcall.1 call.1 hm)
  · rw [step, hrun]
    exact ht
  · have hpasses := hcall.2 e (by rw [hrun])
    rw [step, hrun]
    exact ht hpasses

variable (α) in
/-- The states that calls lead to. -/
def InRun (start : Member) : Member → Prop :=
  Reached (step : Bool × LinalgCall α → Member → Member) Allowed start

variable (α) in
/-- The device memory before and after a run of calls. -/
structure RunKeepsMemory (start t : Member) : Prop where
  fresh : t.cuda.Fresh
  misuses : .deviceBuffer ∉ start.cuda.misuses → .deviceBuffer ∉ t.cuda.misuses
  live : ∀ id, t.cuda.live id = start.cuda.live id ∨ ∃ m, ∃ call : Bool × LinalgCall α,
    InRun α start m ∧ Allowed m call ∧ LostIn m call.2 id (t.cuda.live id)

/-- In whatever order the functions are called, and whatever fails in them, device memory is
reached only where it is there, and freed once. All that was there at the start is there, and
what is there besides are work spaces of factorizations in the run. -/
theorem runs_keep_device_memory {start t : Member} (hstart : start.cuda.Fresh)
    (h : InRun α start t) : RunKeepsMemory α start t := by
  induction h with
  | start => exact ⟨hstart, fun hmis => hmis, fun _ => .inl rfl⟩
  | @next m call hreached hcall ih =>
    have hleft := step_leaves ih.fresh hcall
    refine ⟨hleft.fresh, fun hmis => hleft.misuses (ih.misuses hmis), fun id => ?_⟩
    rcases hleft.live id with hsame | hlost
    · rw [hsame]
      exact ih.live id
    · exact .inr ⟨m, call, hreached, hcall, hlost⟩

end LinalgCall

theorem one_lt_int : 1 < 2 ^ 31 := by omega

theorem one_le_length : 1 * 1 ≤ 2 ^ 52 := by omega

/-- One element. -/
def singleton (x : ℤ) : NumericMatrix ℤ := ⟨1, 1, [x], rfl⟩

/-- One element, as R has it. -/
def singletonR (x : ℤ) : RMatrix ℤ := ⟨singleton x, one_lt_int, one_lt_int, one_le_length⟩

/-- cuSOLVER computes nothing. -/
def withoutSolver : Member := equippedContext fun _ call => call = .compute .solver

/-- A Cholesky factorization that stops with an error leaves at most its work space. -/
theorem failed_cholesky_keeps_memory : LinalgCall.RunKeepsMemory ℤ withoutSolver
    (LinalgCall.step (true, .dpotrf (singletonR 4) 16 0) withoutSolver) := by
  apply LinalgCall.runs_keep_device_memory (equippedContext_fresh _)
  apply Reached.next (true, LinalgCall.dpotrf (singletonR 4) 16 0) .start
  refine ⟨trivial, fun e he => ?_⟩
  have hraise : (exec ((LinalgCall.dpotrf (singletonR 4) 16 0).run true) withoutSolver).1 =
      .error (.exception ("rcompss_gpu_dpotrf failed: cuSOLVER error: " ++
        "cusolverDnDpotrf(sh, uplo, n, dA, lda, d_work, lwork, d_info)")) := by
    rfl
  cases hraise.symm.trans he
  rfl

end RCompss.Kernels
