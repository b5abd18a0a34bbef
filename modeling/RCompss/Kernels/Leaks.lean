import RCompss.Kernels.HeldBuffers

/-! Which failures leave buffers behind: of the raw allocations of a function, all those that
come before the call that fails. -/
namespace RCompss.Kernels
open RCompss.Library

/-- There is no context for the GPU, or the stream that is waited for fails. -/
def StopsBefore (hasContext : Bool) (m : Member) : Prop :=
  hasContext = false ∨ m.this.mOperationPlacement = .CPU ∨
    m.this.mRunMode = .ASYNC ∧ FailsAt m 0 .synchronize

/-- A transfer in the `k`-th call gets through. -/
def Transfers (m : Member) (k : ℕ) : Prop :=
  m.cuda.has .stream m.this.mCudaStream = true ∧ ¬ FailsAt m k .enqueue ∧
    ¬ FailsAt m k .synchronize

/-- The round trip stops before it holds a buffer, needs none, or gets to its end. -/
def RoundtripReleases (hasContext : Bool) (n : ℕ) (m : Member) : Prop :=
  StopsBefore hasContext m ∨ n = 0 ∨ FailsAt m 1 (.acquire .deviceBuffer) ∨
    ¬ FailsAt m 2 (.acquire .hostBuffer) ∧ Transfers m 3 ∧ Transfers m 4 ∧
      ¬ FailsAt m 5 (.acquire .hostBuffer) ∧ ¬ FailsAt m 6 (.release .deviceBuffer)

/-- The addition stops before it holds a buffer, needs none, or gets to its end. -/
def VectorAddReleases (hasContext : Bool) (lengthA lengthB : ℕ) (m : Member) : Prop :=
  StopsBefore hasContext m ∨ lengthA ≠ lengthB ∨ lengthA = 0 ∨
    FailsAt m 1 (.acquire .deviceBuffer) ∨
    ¬ FailsAt m 2 (.acquire .deviceBuffer) ∧ ¬ FailsAt m 3 (.acquire .deviceBuffer) ∧
      Transfers m 4 ∧ Transfers m 5 ∧ ¬ FailsAt m 6 .synchronize ∧
      ¬ FailsAt m 7 (.acquire .hostBuffer) ∧ Transfers m 8 ∧
      ¬ FailsAt m 9 (.acquire .hostBuffer) ∧ ¬ FailsAt m 10 (.release .deviceBuffer) ∧
      ¬ FailsAt m 11 (.release .deviceBuffer) ∧ ¬ FailsAt m 12 (.release .deviceBuffer)

section
variable {m t : Member} {held : List (Option Resource)} {k n : ℕ}

theorem state_stopWith {α : Type} (label : String) (x : BindingM α) (m : Member) :
    (exec (stopWith label x) m).2 = (exec x m).2 := by
  rw [stopWith, exec_tryCatch]
  rcases exec x m with ⟨e | a, t⟩ <;> rfl

theorem requireGpuContext_raisesIf (hasContext : Bool) (m : Member) :
    RaisesIf (requireGpuContext hasContext) m
      (hasContext = false ∨ m.this.mOperationPlacement = .CPU) (fun _ t => t = m)
      fun t => t = m := by
  unfold RaisesIf
  rw [requireGpuContext, meets_bind, meets_onlyIf]
  split
  next hnone => exact ⟨.inl hnone, rfl⟩
  next hsome =>
    rw [meets_bind, meets_get, meets_onlyIf]
    split
    next hcpu => exact ⟨.inr hcpu, rfl⟩
    next hgpu => exact ⟨fun h => h.elim hsome hgpu, rfl⟩

/-- In synchronous mode nothing is held yet. -/
theorem Holding.start (hm : m.cuda.Fresh) (hgpu : m.this.mOperationPlacement ≠ .CPU)
    (h : SameAllocations m t) :
    Holding m [] 0 { t with this := { t.this with mRunMode := .SYNC } } where
  placement := by
    change t.this.mOperationPlacement ≠ .CPU
    rwa [h.this]
  mode := rfl
  stream := by
    change t.cuda.has .stream t.this.mCudaStream = _
    rw [h.has, h.this]
  fails := h.fails
  time := h.time
  next := h.next
  live id := by
    change t.cuda.live id = _
    rw [h.live]
    split
    next hid => exact hm id hid
    next => rfl

theorem setRunMode_raisesIf (hm : m.cuda.Fresh) (hgpu : m.this.mOperationPlacement ≠ .CPU) :
    RaisesIf (inBinding (RunContext.setRunMode .SYNC)) m
      (m.this.mRunMode = .ASYNC ∧ FailsAt m 0 .synchronize)
      (fun _ t => Holding m [] 1 t) (Allocates m.cuda.live) := by
  apply inBinding_raisesIf
  unfold RaisesIf
  rw [RunContext.setRunMode, meets_bind, meets_get, meets_bind, meets_onlyIf]
  split
  next hasync =>
    rw [RunContext.sync, meets_bind, meets_get, onlyIf, if_pos (placement_of_ne_cpu hgpu)]
    apply Meets.mono (streamSynchronize_raisesIf m.this.mCudaStream m)
    · intro _ u hu
      exact ⟨fun h => hu.1 h.2, (Holding.start hm hgpu hu.2).tick⟩
    · intro _ u hu
      exact ⟨⟨hasync.1, hu.1⟩, hu.2.live⟩
  next hsync =>
    exact ⟨fun h => hsync ⟨h.1, rfl⟩, (Holding.start hm hgpu (.refl m)).tick⟩

/-- The checks of a function and its change of the run mode. -/
theorem begins_iff {hasContext : Bool} {d : Prop} (hm : m.cuda.Fresh) {rest : BindingM Unit}
    (hrest : ∀ t, Holding m [] 1 t → (Allocates m.cuda.live (exec rest t).2 ↔ d)) :
    Allocates m.cuda.live (exec (do
      requireGpuContext hasContext
      inBinding (RunContext.setRunMode .SYNC)
      rest) m).2 ↔ StopsBefore hasContext m ∨ d := by
  rw [StopsBefore, ← or_assoc, or_assoc]
  apply (requireGpuContext_raisesIf hasContext m).spared
  · rintro t rfl
    rfl
  rintro _ t hcontext rfl
  rw [not_or] at hcontext
  exact (setRunMode_raisesIf hm hcontext.2).spared (fun _ ht => ht) fun _ t _ ht => hrest t ht

theorem exec_onlyIf_of_not {α : Type} {c : Prop} [Decidable c] (hc : ¬ c) (x : BindingM Unit)
    (rest : Unit → BindingM α) (t : Member) :
    exec (onlyIf c x >>= rest) t = exec (rest ()) t := by
  rw [onlyIf, if_neg hc]
  exact exec_bind_ok (exec_pure () t)

/-- Of no bytes nothing is allocated, transferred or released. -/
theorem exec_allocateArray_zero (p : OperationPlacement) (t : Member) :
    exec (inBinding (MemoryHandler.allocateArray 0 p)) t = (.ok none, t.tick) := rfl

theorem exec_memCpy_zero (dst src : Option ℕ) (transfer : MemoryTransfer) (t : Member) :
    exec (inBinding (MemoryHandler.memCpy dst src 0 transfer)) t = (.ok (), t.tick) := by
  cases transfer <;> rfl

theorem exec_destroyArray_none (p : OperationPlacement) (t : Member) :
    exec (inBinding (MemoryHandler.destroyArray none p)) t = (.ok none, t.tick) := rfl

/-- A step that loses what is held when it raises. -/
theorem lost_iff {α : Type} {x : BindingM α} {rest : α → BindingM Unit} {c d : Prop}
    {Q : α → Member → Prop} (hm : m.cuda.Fresh) (hheld : held.any Option.isSome = true)
    (hx : RaisesIf x t c Q fun u => Holding m held k u)
    (hrest : ∀ a u, Q a u → (Allocates m.cuda.live (exec (rest a) u).2 ↔ d)) :
    Allocates m.cuda.live (exec (x >>= rest) t).2 ↔ ¬ c ∧ d :=
  hx.lost (fun _ hu => hu.not_allocates hm hheld) fun a u _ hu => hrest a u hu

theorem lastLost_iff {α : Type} {x : BindingM α} {rest : α → BindingM Unit} {c : Prop}
    {Q : α → Member → Prop} (hm : m.cuda.Fresh) (hheld : held.any Option.isSome = true)
    (hx : RaisesIf x t c Q fun u => Holding m held k u)
    (hrest : ∀ a u, Q a u → Allocates m.cuda.live (exec (rest a) u).2) :
    Allocates m.cuda.live (exec (x >>= rest) t).2 ↔ ¬ c := by
  rw [lost_iff hm hheld hx fun a u hu => iff_true_intro (hrest a u hu), and_true]

/-- The transfers among them. -/
theorem transfer_iff {rest : Unit → BindingM Unit} {d : Prop} (hm : m.cuda.Fresh)
    (hheld : held.any Option.isSome = true) (h : Holding m held k t) (hn : n ≠ 0)
    (dst src : Option ℕ) {transfer : MemoryTransfer} (htransfer : transfer ≠ .HOST_TO_HOST)
    (hrest : ∀ u, Holding m held (k + 1) u → (Allocates m.cuda.live (exec (rest ()) u).2 ↔ d)) :
    Allocates m.cuda.live
      (exec (inBinding (MemoryHandler.memCpy dst src n transfer) >>= rest) t).2 ↔
      Transfers m k ∧ d := by
  rw [lost_iff hm hheld (memCpy_raisesIf h hn dst src htransfer) fun _ u hu => hrest u hu, not_not,
    Transfers]

/-- The last buffer is deleted, and it is on the host. -/
theorem deleteLast_iff (hm : m.cuda.Fresh) {i : ℕ} (hi : held[i]? = some (some ⟨.hostBuffer, n⟩))
    (hnone : ∀ r ∈ held.set i none, r = none) (h : Holding m held k t) :
    Allocates m.cuda.live (exec (do
      let _ ← inBinding (MemoryHandler.destroyArray (some (m.cuda.next + i)) .CPU)) t).2 := by
  have hdelete := destroyHost_raisesIf h hi
  obtain ⟨a, u, hrun, -, hu⟩ | ⟨e, u, -, hfalse, -⟩ := Meets.run hdelete
  · rw [exec_bind_ok hrun]
    exact hu.allocates hm hnone
  · exact hfalse.elim

theorem roundtrip_iff (hm : m.cuda.Fresh) (hasContext : Bool) (n : ℕ) :
    LeavesMemory (rcompssGpuMemoryRoundtripDouble hasContext n) m ↔
      RoundtripReleases hasContext n m := by
  unfold LeavesMemory RoundtripReleases rcompssGpuMemoryRoundtripDouble
  rw [state_stopWith]
  apply begins_iff hm
  intro t ht
  by_cases hn : n = 0
  · subst hn
    apply iff_of_true _ (.inl rfl)
    rw [Nat.zero_mul, exec_bind_ok (exec_allocateArray_zero .GPU t),
      exec_bind_ok (exec_allocateArray_zero .CPU _), exec_onlyIf_of_not (by decide),
      exec_bind_ok (exec_memCpy_zero _ _ _ _), exec_bind_ok (exec_memCpy_zero _ _ _ _)]
    apply (newNumericVector_raisesIf ht.tick.tick.tick.tick).kept
    · intro u hu
      exact hu.allocates hm (by simp)
    intro _ u hu
    rw [exec_bind_ok (exec_destroyArray_none .GPU u), exec_bind_ok (exec_destroyArray_none .CPU _)]
    exact hu.tick.tick.allocates hm (by simp)
  · have hbytes : n * 8 ≠ 0 := by omega
    rw [or_iff_right hn]
    apply (allocateArray_raisesIf ht hbytes .GPU).spared
    · intro u hu
      exact hu.allocates hm (by simp)
    rintro _ u _ ⟨rfl, hu⟩
    apply lost_iff hm rfl (allocateArray_raisesIf hu hbytes .CPU)
    rintro _ u ⟨rfl, hu⟩
    rw [exec_onlyIf_of_not (by simp)]
    apply transfer_iff hm rfl hu hbytes _ _ (by decide)
    intro u hu
    apply transfer_iff hm rfl hu hbytes _ _ (by decide)
    intro u hu
    apply lost_iff hm rfl (newNumericVector_raisesIf hu)
    intro _ u hu
    apply lastLost_iff hm rfl (destroyDevice_raisesIf (n := n * 8) hu (i := 0) rfl)
    intro _ u hu
    exact deleteLast_iff (n := n * 8) hm (i := 1) rfl (by simp) hu

theorem vectorAdd_iff (hm : m.cuda.Fresh) (hasContext : Bool) (lengthA lengthB : ℕ) :
    LeavesMemory (rcompssGpuVectorAdd hasContext lengthA lengthB) m ↔
      VectorAddReleases hasContext lengthA lengthB m := by
  unfold LeavesMemory VectorAddReleases rcompssGpuVectorAdd
  rw [state_stopWith]
  apply begins_iff hm
  intro t ht
  apply RaisesIf.check.spared
  · rintro u rfl
    exact ht.allocates hm (by simp)
  rintro _ _ _ rfl
  by_cases hn : lengthA = 0
  · subst hn
    apply iff_of_true _ (.inl rfl)
    dsimp only
    rw [Nat.zero_mul, exec_bind_ok (exec_allocateArray_zero .GPU _),
      exec_bind_ok (exec_allocateArray_zero .GPU _), exec_bind_ok (exec_allocateArray_zero .GPU _),
      exec_onlyIf_of_not (by decide), exec_bind_ok (exec_memCpy_zero _ _ _ _),
      exec_bind_ok (exec_memCpy_zero _ _ _ _)]
    apply (vectorAdd_raisesIf ht.tick.tick.tick.tick.tick 8 _ _ _ 0).kept
    · intro u hu
      exact hu.allocates hm (by simp)
    intro _ u hu
    rw [exec_bind_ok (exec_allocateArray_zero .CPU u)]
    exact hu.tick.allocates hm (by simp)
  · have hbytes : lengthA * 8 ≠ 0 := by omega
    rw [or_iff_right hn]
    apply (allocateArray_raisesIf ht hbytes .GPU).spared
    · intro u hu
      exact hu.allocates hm (by simp)
    rintro _ u _ ⟨rfl, hu⟩
    apply lost_iff hm rfl (allocateArray_raisesIf hu hbytes .GPU)
    rintro _ u ⟨rfl, hu⟩
    apply lost_iff hm rfl (allocateArray_raisesIf hu hbytes .GPU)
    rintro _ u ⟨rfl, hu⟩
    rw [exec_onlyIf_of_not (by simp)]
    apply transfer_iff hm rfl hu hbytes _ _ (by decide)
    intro u hu
    apply transfer_iff hm rfl hu hbytes _ _ (by decide)
    intro u hu
    apply lost_iff hm rfl (vectorAdd_raisesIf hu 8 _ _ _ lengthA)
    intro _ u hu
    apply lost_iff hm rfl (allocateArray_raisesIf hu hbytes .CPU)
    rintro _ u ⟨rfl, hu⟩
    rw [exec_onlyIf_of_not (by simp)]
    apply transfer_iff hm rfl hu hbytes _ _ (by decide)
    intro u hu
    apply lost_iff hm rfl (newNumericVector_raisesIf hu)
    intro _ u hu
    apply lost_iff hm rfl (destroyDevice_raisesIf (n := lengthA * 8) hu (i := 0) rfl)
    intro _ u hu
    apply lost_iff hm rfl (destroyDevice_raisesIf (n := lengthA * 8) hu (i := 1) rfl)
    intro _ u hu
    apply lastLost_iff hm rfl (destroyDevice_raisesIf (n := lengthA * 8) hu (i := 2) rfl)
    intro _ u hu
    exact deleteLast_iff (n := lengthA * 8) hm (i := 3) rfl (by simp) hu

end

/-- Each of the four functions leaves the memory of the device and the heap as it was exactly
when it stops before it holds a buffer, needs none, or no later call of it fails. -/
theorem no_leak_iff {m : Member} (hm : m.cuda.Fresh) :
    (∀ hasContext lengthA lengthB,
      LeavesMemory (rcompssGpuVectorAdd hasContext lengthA lengthB) m ↔
        VectorAddReleases hasContext lengthA lengthB m) ∧
    (∀ hasContext n, LeavesMemory (rcompssGpuMemoryRoundtripDouble hasContext n) m ↔
      RoundtripReleases hasContext n m) ∧
    (∀ lwork info, LeavesMemory (gpuSolverDpotrf lwork info) m ↔
      FactorizationReleases lwork m) ∧
    ∀ lwork info, LeavesMemory (gpuSolverDgetrf lwork info) m ↔
      FactorizationReleases lwork m :=
  ⟨vectorAdd_iff hm, roundtrip_iff hm, gpuFactorize_leaves_iff hm _ _,
    gpuFactorize_leaves_iff hm _ _⟩

/-- A GPU context with a stream and the two handles, of which some calls fail later. -/
def equippedContext (fails : ℕ → Call → Bool) : Member where
  this := { RunContext.raw with
    mCudaStream := some 0
    mCuSolverHandle := some 1
    mCuBlasHandle := some 2
    mpInfo := some 3
    mOperationPlacement := .GPU }
  cuda := (((Cuda.fresh fails).alloc .stream 0).alloc .solver 0).alloc .blas 0 |>.alloc .info 4

theorem equippedContext_fresh (fails : ℕ → Call → Bool) : (equippedContext fails).cuda.Fresh :=
  (((Cuda.Fresh.alloc (fun _ _ => rfl) _ _).alloc _ _).alloc _ _).alloc _ _

/-- Where nothing fails, nothing is lost. -/
theorem addition_without_leak :
    LeavesMemory (rcompssGpuVectorAdd true 2 2) (equippedContext fun _ _ => false) := by
  apply ((no_leak_iff (equippedContext_fresh fun _ _ => false)).1 true 2 2).mpr
  simp [VectorAddReleases, Transfers, FailsAt, equippedContext, Cuda.alloc, Cuda.fresh, Cuda.has,
    Cuda.size?]

/-- A Cholesky factorization that fails keeps its work space. -/
theorem failed_factorization_leaks : ¬ ∀ (m : Member) (lwork info : ℤ), m.cuda.Fresh →
    LeavesMemory (gpuSolverDpotrf lwork info) m := by
  intro h
  have hleft := h (equippedContext fun _ call => call = .compute .solver) 16 0
    (equippedContext_fresh _)
  have hbuffer := congrFun hleft 4
  revert hbuffer
  decide

end RCompss.Kernels
