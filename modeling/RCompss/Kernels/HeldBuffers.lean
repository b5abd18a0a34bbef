import RCompss.Kernels.Allocations
import RCompss.Kernels.DirectCalls

/-! The buffers that a function holds on its way, and when each of its calls raises. -/
namespace RCompss.Kernels
open RCompss.Library

/-- The kind of memory of a placement. -/
def OperationPlacement.bufferPart : OperationPlacement → Part
  | .GPU => .deviceBuffer
  | .CPU => .hostBuffer

/-- A call fails when it is made in the `k`-th of the calls on the context from now on. -/
def FailsAt (m : Member) (k : ℕ) (call : Call) : Prop := m.cuda.fails (m.cuda.time + k) call = true

/-- After `k` calls on the context in synchronous mode, the buffers allocated since: in the
order of their allocation, `none` for those released. -/
structure Holding (m : Member) (held : List (Option Resource)) (k : ℕ) (t : Member) : Prop where
  placement : t.this.mOperationPlacement ≠ .CPU
  mode : t.this.mRunMode = .SYNC
  stream : t.cuda.has .stream t.this.mCudaStream = m.cuda.has .stream m.this.mCudaStream
  fails : t.cuda.fails = m.cuda.fails
  time : t.cuda.time = m.cuda.time + k
  next : t.cuda.next = m.cuda.next + held.length
  live : ∀ id, t.cuda.live id =
    if m.cuda.next ≤ id then held[id - m.cuda.next]?.join else m.cuda.live id

namespace Holding
variable {m t u : Member} {held : List (Option Resource)} {k : ℕ}

theorem failing (h : Holding m held k t) (call : Call) :
    t.cuda.failing call = true ↔ FailsAt m k call := by
  rw [FailsAt, Cuda.failing, h.fails, h.time]

theorem tick (h : Holding m held k t) : Holding m held (k + 1) t.tick :=
  { h with time := congrArg (· + 1) h.time }

theorem same (h : Holding m held k t) (hu : SameAllocations t u) : Holding m held k u where
  placement := by
    rw [hu.this]
    exact h.placement
  mode := by
    rw [hu.this]
    exact h.mode
  stream := by rw [hu.has, hu.this, h.stream]
  fails := hu.fails.trans h.fails
  time := hu.time.trans h.time
  next := hu.next.trans h.next
  live id := by rw [hu.live, h.live]

theorem fresh (h : Holding m held k t) : t.cuda.Fresh := by
  intro id hid
  rw [h.next] at hid
  rw [h.live, if_pos (by omega), List.getElem?_eq_none (by omega)]
  rfl

/-- With every buffer released the memory is what it was. -/
theorem allocates (h : Holding m held k t) (hm : m.cuda.Fresh) (hnone : ∀ r ∈ held, r = none) :
    Allocates m.cuda.live t := by
  funext id
  rw [h.live]
  split
  next hid =>
    rw [hm id hid]
    rcases hget : held[id - m.cuda.next]? with _ | r
    · rfl
    · rw [hnone r (List.mem_of_getElem? hget)]
      rfl
  next => rfl

/-- A buffer that is not released is a leak. -/
theorem not_allocates (h : Holding m held k t) (hm : m.cuda.Fresh)
    (hheld : held.any Option.isSome = true) : ¬ Allocates m.cuda.live t := by
  obtain ⟨buffer, hmem, hsome⟩ := List.any_eq_true.mp hheld
  obtain ⟨r, rfl⟩ := Option.isSome_iff_exists.mp hsome
  obtain ⟨i, hi, hget⟩ := List.getElem_of_mem hmem
  intro hlive
  have hleft := congrFun hlive (m.cuda.next + i)
  rw [h.live, if_pos (Nat.le_add_right _ _), Nat.add_sub_cancel_left,
    List.getElem?_eq_getElem hi, hget, hm _ (Nat.le_add_right _ _)] at hleft
  contradiction

/-- The next buffer. -/
theorem alloc (h : Holding m held k t) {part : Part} (hpart : part ≠ .stream) (n : ℕ) :
    Holding m (held ++ [some ⟨part, n⟩]) k { t with cuda := t.cuda.alloc part n } where
  placement := h.placement
  mode := h.mode
  stream := by
    have hkeep : SameParts (fun p => p == .stream) t.cuda (t.cuda.alloc part n) := by
      apply SameParts.alloc _ h.fresh n
      exact beq_eq_false_iff_ne.mpr hpart
    exact (hkeep.has rfl _).trans h.stream
  fails := h.fails
  time := h.time
  next := by
    rw [List.length_append, List.length_singleton, ← Nat.add_assoc, ← h.next]
    rfl
  live id := by
    change Function.update t.cuda.live t.cuda.next _ id = _
    rw [h.next]
    by_cases hid : id = m.cuda.next + held.length
    · rw [hid, Function.update_self, if_pos (Nat.le_add_right _ _), Nat.add_sub_cancel_left]
      simp
    · rw [Function.update_of_ne hid, h.live]
      split
      next hle =>
        rcases Nat.lt_or_ge (id - m.cuda.next) held.length with hlt | hge
        · rw [List.getElem?_append_left hlt]
        · rw [List.getElem?_eq_none hge, List.getElem?_eq_none]
          rw [List.length_append, List.length_singleton]
          omega
      next => rfl

/-- Any of the buffers. -/
theorem kill (h : Holding m held k t) {part : Part} (hpart : part ≠ .stream) {i n : ℕ}
    (hi : held[i]? = some (some ⟨part, n⟩)) :
    t.cuda.has part (some (m.cuda.next + i)) = true ∧ Holding m (held.set i none) k
      { t with cuda := t.cuda.kill part (some (m.cuda.next + i)) } := by
  have hlive : t.cuda.live (m.cuda.next + i) = some ⟨part, n⟩ := by
    rw [h.live, if_pos (Nat.le_add_right _ _), Nat.add_sub_cancel_left, hi]
    rfl
  have hhas : t.cuda.has part (some (m.cuda.next + i)) = true :=
    (Cuda.has_iff _ _ _).mpr ⟨_, n, rfl, hlive⟩
  refine ⟨hhas, h.placement, h.mode, ?_, ?_, ?_, ?_, fun id => ?_⟩
  · have hkeep : SameParts (fun p => p == .stream) t.cuda
        (t.cuda.kill part (some (m.cuda.next + i))) := by
      apply SameParts.kill
      exact beq_eq_false_iff_ne.mpr hpart
    exact (hkeep.has rfl _).trans h.stream
  · rw [Cuda.kill, if_pos hhas]
    exact h.fails
  · rw [Cuda.kill, if_pos hhas]
    exact h.time
  · rw [Cuda.next_kill, List.length_set]
    exact h.next
  · rw [Cuda.kill, if_pos hhas]
    change (if some (m.cuda.next + i) = some id then none else t.cuda.live id) = _
    by_cases hid : m.cuda.next + i = id
    · subst hid
      have hlt : i < held.length := (List.getElem?_eq_some_iff.mp hi).1
      rw [if_pos rfl, if_pos (Nat.le_add_right _ _), Nat.add_sub_cancel_left,
        List.getElem?_set_self hlt]
      rfl
    · rw [if_neg fun hsome => hid (Option.some.inj hsome), h.live]
      split
      next hle => rw [List.getElem?_set_ne (by omega)]
      next => rfl

end Holding

/-- On the context a call raises when it does by itself. -/
theorem inBinding_raisesIf {α : Type} {x : MemberM α} {m : Member} {c : Prop}
    {Q : α → Member → Prop} {E : Member → Prop}
    (h : RaisesIf x m c (fun a t => Q a t.tick) fun t => E t.tick) :
    RaisesIf (inBinding x) m c Q E := by
  unfold RaisesIf
  rw [inBinding, meets_bind, meets_get]
  obtain ⟨a, t, hrun, hc, ht⟩ | ⟨e, t, hrun, hc, ht⟩ := Meets.run h
  · rw [hrun]
    exact ⟨hc, ht⟩
  · rw [hrun]
    exact ⟨hc, ht⟩

section
variable {m t : Member} {held : List (Option Resource)} {k n : ℕ}

/-- A new buffer comes behind the others. -/
theorem allocateArray_raisesIf (h : Holding m held k t) (hn : n ≠ 0) (p : OperationPlacement) :
    RaisesIf (inBinding (MemoryHandler.allocateArray n p)) t (FailsAt m k (.acquire p.bufferPart))
      (fun q u => q = some (m.cuda.next + held.length) ∧
        Holding m (held ++ [some ⟨p.bufferPart, n⟩]) (k + 1) u)
      fun u => Holding m held (k + 1) u := by
  have hpart : p.bufferPart ≠ .stream := by cases p <;> decide
  have hnew (e : GpuError) := newMemory_raisesIf p.bufferPart n e t
  simp only [h.failing] at hnew
  have hheld (e : GpuError) : RaisesIf (newMemory p.bufferPart n e) t
      (FailsAt m k (.acquire p.bufferPart))
      (fun q u => q = some (m.cuda.next + held.length) ∧
        Holding m (held ++ [some ⟨p.bufferPart, n⟩]) (k + 1) u.tick)
      fun u => Holding m held (k + 1) u.tick := by
    apply (hnew e).mono
    · rintro q u ⟨rfl, rfl⟩
      exact ⟨congrArg some h.next, (h.alloc hpart n).tick⟩
    · rintro u rfl
      exact h.tick
  apply inBinding_raisesIf
  unfold MemoryHandler.allocateArray
  rw [if_neg hn]
  cases p with
  | GPU => exact hheld _
  | CPU => exact hheld _

/-- A transfer to or from the device. -/
theorem memCpy_raisesIf (h : Holding m held k t) (hn : n ≠ 0) (dst src : Option ℕ)
    {transfer : MemoryTransfer} (htransfer : transfer ≠ .HOST_TO_HOST) :
    RaisesIf (inBinding (MemoryHandler.memCpy dst src n transfer)) t
      (¬ (m.cuda.has .stream m.this.mCudaStream = true ∧ ¬ FailsAt m k .enqueue ∧
        ¬ FailsAt m k .synchronize))
      (fun _ u => Holding m held (k + 1) u) fun u => Holding m held (k + 1) u := by
  apply inBinding_raisesIf
  have hstream : exec RunContext.getStream t = (.ok t.this.mCudaStream, t) :=
    exec_getMetadata h.placement _
  unfold RaisesIf MemoryHandler.memCpy
  rw [onlyIf, if_pos ⟨hn, htransfer⟩, meets_bind, meets_get, onlyIf, if_neg h.placement, meets_bind,
    meets_pure, meets_bind]
  unfold Meets
  rw [hstream]
  have hgiven := errorCheck_raisesIf (e := .cudaError .enqueue) (enqueue_sameAllocations
    t.this.mCudaStream (transfer.accesses dst src n) t)
  rw [h.stream, ← Bool.not_eq_true, h.failing] at hgiven
  change Meets _ t _ _
  rw [meets_bind]
  apply Meets.mono hgiven
  · intro _ u hu
    rw [not_not] at hu
    have hwait := waitIfSync_raisesIf (h.same hu.2).placement
    simp only [(h.same hu.2).mode, true_and, (h.same hu.2).failing] at hwait
    apply Meets.mono hwait
    · intro _ v hv
      refine ⟨not_not.mpr ⟨hu.1.1, hu.1.2, hv.1⟩, ?_⟩
      exact ((h.same hu.2).same hv.2).tick
    · intro _ v hv
      refine ⟨fun hall => hall.2.2 hv.1, ?_⟩
      exact ((h.same hu.2).same hv.2).tick
  · intro _ u hu
    exact ⟨fun hall => hu.1 ⟨hall.1, hall.2.1⟩, (h.same hu.2).tick⟩

/-- A kernel is waited for, and its launch is not looked at. -/
theorem vectorAdd_raisesIf (h : Holding m held k t) (width : ℕ) (a b result : Option ℕ) (n : ℕ) :
    RaisesIf (inBinding (CudaVectorKernels.vectorAdd width a b result n)) t
      (FailsAt m k .synchronize)
      (fun _ u => Holding m held (k + 1) u) fun u => Holding m held (k + 1) u := by
  apply inBinding_raisesIf
  have hstream : exec RunContext.getStream t = (.ok t.this.mCudaStream, t) :=
    exec_getMetadata h.placement _
  have hlaunched (accesses : List (Option ℕ × ℕ)) : Meets
      (onlyIf (blocksPerGrid n ≠ 0) do
        let _ ← enqueue t.this.mCudaStream accesses) t
      (fun _ u => SameAllocations t u) fun _ _ => False := by
    rw [meets_onlyIf]
    split
    next =>
      rw [meets_bind]
      exact (enqueue_sameAllocations t.this.mCudaStream accesses t).imp fun _ _ hu => hu.1
    next => exact .refl t
  unfold RaisesIf CudaVectorKernels.vectorAdd launch
  rw [meets_bind]
  unfold Meets
  rw [hstream]
  change Meets _ t _ _
  rw [meets_bind]
  apply (hlaunched _).returns
  intro _ u hu
  have hgpu : u.this.mOperationPlacement = .GPU := placement_of_ne_cpu (h.same hu).placement
  rw [RunContext.sync, meets_bind, meets_get, onlyIf, if_pos hgpu]
  have hsync := streamSynchronize_raisesIf u.this.mCudaStream u
  rw [(h.same hu).failing] at hsync
  exact Meets.mono hsync (fun _ v hv => ⟨hv.1, ((h.same hu).same hv.2).tick⟩)
    fun _ v hv => ⟨hv.1, ((h.same hu).same hv.2).tick⟩

theorem newNumericVector_raisesIf (h : Holding m held k t) :
    RaisesIf newNumericVector t (FailsAt m k (.acquire .hostBuffer))
      (fun _ u => Holding m held (k + 1) u) fun u => Holding m held (k + 1) u := by
  unfold RaisesIf
  rw [newNumericVector, meets_bind, meets_get, meets_bind, meets_set, meets_onlyIf]
  split
  next hfails => exact ⟨(h.failing _).mp hfails, h.tick⟩
  next hfits => exact ⟨fun hfails => hfits ((h.failing _).mpr hfails), h.tick⟩

/-- Freeing a device buffer. -/
theorem destroyDevice_raisesIf (h : Holding m held k t) {i : ℕ}
    (hi : held[i]? = some (some ⟨.deviceBuffer, n⟩)) :
    RaisesIf (inBinding (MemoryHandler.destroyArray (some (m.cuda.next + i)) .GPU)) t
      (FailsAt m k (.release .deviceBuffer))
      (fun _ u => Holding m (held.set i none) (k + 1) u) fun u => Holding m held (k + 1) u := by
  apply inBinding_raisesIf
  obtain ⟨hhas, hkill⟩ := h.kill (by decide) hi
  unfold RaisesIf
  rw [MemoryHandler.destroyArray, meets_bind, onlyIf, if_pos (Option.some_ne_none _),
    meets_errorCheck, meets_cudaFree (.inr hhas)]
  split
  next hfails => exact ⟨(h.failing _).mp hfails.2, h.tick⟩
  next hfreed =>
    refine ⟨fun hfails => hfreed ⟨Option.some_ne_none _, (h.failing _).mpr hfails⟩, ?_⟩
    exact hkill.tick

/-- Deleting a host buffer. -/
theorem destroyHost_raisesIf (h : Holding m held k t) {i : ℕ}
    (hi : held[i]? = some (some ⟨.hostBuffer, n⟩)) :
    RaisesIf (inBinding (MemoryHandler.destroyArray (some (m.cuda.next + i)) .CPU)) t False
      (fun _ u => Holding m (held.set i none) (k + 1) u) fun u => Holding m held (k + 1) u := by
  apply inBinding_raisesIf
  obtain ⟨hhas, hkill⟩ := h.kill (by decide) hi
  unfold RaisesIf
  rw [MemoryHandler.destroyArray, meets_bind, onlyIf, if_pos (Option.some_ne_none _), deleteHost,
    modifyCuda, meets_modify, Cuda.touch_of_has hhas]
  exact ⟨id, hkill.tick⟩

end

end RCompss.Kernels
