import RCompss.Kernels.GpuOperations

/-! What calls on the device leave of its memory: a copy or a kernel within live buffers leaves
all of it, new memory is added, and freed memory goes. -/
namespace RCompss.Kernels
open RCompss.Library

namespace Cuda
variable {cuda : Cuda} {part : Part} {id id' : ℕ}

theorem live_kill_of_ne (hne : id' ≠ id) :
    (cuda.kill part (some id)).live id' = cuda.live id' := by
  unfold kill
  split
  · exact if_neg fun h => hne (Option.some.inj h).symm
  · rfl

theorem live_kill_self {n : ℕ} (h : cuda.live id = some ⟨part, n⟩) :
    (cuda.kill part (some id)).live id = none := by
  have hhas : cuda.has part (some id) = true := (has_iff _ _ _).mpr ⟨id, n, rfl, h⟩
  rw [kill, if_pos hhas]
  exact if_pos rfl

@[simp] theorem fails_kill (p : Option ℕ) : (cuda.kill part p).fails = cuda.fails := by
  unfold kill
  split <;> rfl

end Cuda

/-- The same device memory, used as it should be. -/
structure SameBuffers (cuda cuda' : Cuda) : Prop where
  live : cuda'.live = cuda.live
  next : cuda'.next = cuda.next
  fails : cuda'.fails = cuda.fails
  misuses : .deviceBuffer ∉ cuda.misuses → .deviceBuffer ∉ cuda'.misuses

namespace SameBuffers
variable {cuda cuda' cuda'' : Cuda}

theorem refl (cuda : Cuda) : SameBuffers cuda cuda := ⟨rfl, rfl, rfl, fun h => h⟩

theorem trans (h : SameBuffers cuda cuda') (h' : SameBuffers cuda' cuda'') :
    SameBuffers cuda cuda'' where
  live := h'.live.trans h.live
  next := h'.next.trans h.next
  fails := h'.fails.trans h.fails
  misuses hm := h'.misuses (h.misuses hm)

theorem touchStream (cuda : Cuda) (p : Option ℕ) : SameBuffers cuda (cuda.touch .stream p) where
  live := cuda.live_touch .stream p
  next := cuda.next_touch .stream p
  fails := by
    unfold Cuda.touch
    split <;> rfl
  misuses := Cuda.misuses_touch nofun

theorem enqueue (cuda : Cuda) (stream : Option ℕ) : SameBuffers cuda (cuda.enqueue stream) :=
  ⟨rfl, rfl, rfl, fun h => h⟩

theorem drain (cuda : Cuda) (stream : Option ℕ) : SameBuffers cuda (cuda.drain stream) :=
  ⟨rfl, rfl, rfl, fun h => h⟩

theorem tick (cuda : Cuda) : SameBuffers cuda cuda.tick := ⟨rfl, rfl, rfl, fun h => h⟩

theorem reaches (h : SameBuffers cuda cuda') (p : Option ℕ) (bytes : ℕ) :
    cuda'.reaches p bytes = cuda.reaches p bytes := by
  simp only [Cuda.reaches, Cuda.size?, h.live]

/-- Accesses within live memory leave the device as it is. -/
theorem accessAll {accesses : List (Option ℕ × ℕ)}
    (h : ∀ a ∈ accesses, cuda.reaches a.1 a.2 = true) : cuda.accessAll accesses = cuda := by
  induction accesses with
  | nil => rfl
  | cons a accesses ih =>
    have hhead : cuda.access a.1 a.2 = cuda := if_pos (h a List.mem_cons_self)
    rw [Cuda.accessAll, List.foldl_cons, hhead]
    exact ih fun b hb => h b (List.mem_cons_of_mem a hb)

end SameBuffers

/-- Nothing done to device memory since `cuda`. -/
def OnlyUses (cuda : Cuda) (m : Member) : Prop := SameBuffers cuda m.cuda

section
variable {cuda : Cuda}

theorem onlyUses_touchStream (p : Option ℕ) :
    Keeps (OnlyUses cuda) (modifyCuda fun cuda => cuda.touch .stream p) :=
  keeps_modify fun m hm => SameBuffers.trans hm (.touchStream m.cuda p)

theorem onlyUses_enqueue (stream : Option ℕ) {accesses : List (Option ℕ × ℕ)}
    (h : ∀ a ∈ accesses, cuda.reaches a.1 a.2 = true) :
    Keeps (OnlyUses cuda) (enqueue stream accesses) := by
  apply (onlyUses_touchStream stream).bind
  intro _
  apply keeps_get.bind
  intro _
  apply Keeps.ite
  · apply Keeps.bind _ fun _ => .pure true
    apply keeps_modify
    intro m hm
    have hreach (a : Option ℕ × ℕ) (ha : a ∈ accesses) : m.cuda.reaches a.1 a.2 = true := by
      rw [SameBuffers.reaches hm, h a ha]
    change SameBuffers cuda ((m.cuda.accessAll accesses).enqueue stream)
    rw [SameBuffers.accessAll hreach]
    exact SameBuffers.trans hm (.enqueue m.cuda stream)
  · exact .pure false

theorem onlyUses_streamSynchronize (stream : Option ℕ) :
    Keeps (OnlyUses cuda) (RunContext.streamSynchronize stream) := by
  apply (onlyUses_touchStream stream).bind
  intro _
  apply keeps_get.bind
  intro _
  apply (keeps_throw _).onlyIf.bind
  intro _
  exact keeps_modify fun m hm => SameBuffers.trans hm (.drain m.cuda stream)

theorem onlyUses_getStream : Keeps (OnlyUses cuda) RunContext.getStream :=
  keeps_get.bind fun _ => (keeps_throw _).ite (.pure _)

theorem onlyUses_waitIfSync : Keeps (OnlyUses cuda) waitIfSync :=
  keeps_get.bind fun _ =>
    (onlyUses_getStream.bind fun stream => onlyUses_streamSynchronize stream).onlyIf

/-- A transfer whose device memory is there. -/
theorem onlyUses_memCpy {dst src : Option ℕ} {size : ℕ} {transfer : MemoryTransfer}
    (h : ∀ a ∈ transfer.accesses dst src size, cuda.reaches a.1 a.2 = true) :
    Keeps (OnlyUses cuda) (MemoryHandler.memCpy dst src size transfer) := by
  apply Keeps.onlyIf
  apply keeps_get.bind
  intro _
  apply (keeps_throw _).onlyIf.bind
  intro _
  apply onlyUses_getStream.bind
  intro stream
  apply (keeps_errorCheck (onlyUses_enqueue stream h) _).bind
  intro _
  exact onlyUses_waitIfSync

/-- A kernel whose device memory is there. -/
theorem onlyUses_launch (n : ℕ) {accesses : List (Option ℕ × ℕ)}
    (h : ∀ a ∈ accesses, cuda.reaches a.1 a.2 = true) :
    Keeps (OnlyUses cuda) (launch n accesses) := by
  apply onlyUses_getStream.bind
  intro stream
  apply ((onlyUses_enqueue stream h).bind fun _ => .pure _).onlyIf.bind
  intro _
  exact keeps_get.bind fun m => (onlyUses_streamSynchronize m.this.mCudaStream).onlyIf

end

section
variable {m : Member} {n : ℕ}

/-- New memory, if any, is the next. -/
theorem allocateArray_meets (n : ℕ) (m : Member) :
    Meets (MemoryHandler.allocateArray n .GPU) m
      (fun p t => p = none ∧ t.cuda = m.cuda ∨
        p = some m.cuda.next ∧ t.cuda = m.cuda.alloc .deviceBuffer n)
      fun _ t => t.cuda = m.cuda := by
  unfold MemoryHandler.allocateArray
  split
  next => exact .inl ⟨rfl, rfl⟩
  next =>
    rw [newMemory, meets_bind, meets_get, meets_bind, meets_errorCheck, meets_acquire]
    split
    next => rfl
    next => exact .inr ⟨rfl, rfl⟩

/-- `cudaFree` of live memory, where it succeeds. -/
theorem destroyArray_meets {id : ℕ} (hlive : m.cuda.live id = some ⟨.deviceBuffer, n⟩)
    (hfree : m.cuda.failing (.release .deviceBuffer) = false) :
    Meets (MemoryHandler.destroyArray (some id) .GPU) m
      (fun p t => p = none ∧ t.cuda = m.cuda.kill .deviceBuffer (some id)) fun _ _ => False := by
  have hhas : m.cuda.has .deviceBuffer (some id) = true :=
    (Cuda.has_iff _ _ _).mpr ⟨id, n, rfl, hlive⟩
  rw [MemoryHandler.destroyArray, meets_bind, meets_onlyIf, if_pos (Option.some_ne_none id),
    meets_errorCheck, meets_cudaFree (.inr hhas), if_neg fun h => by simp [hfree] at h]
  exact ⟨rfl, rfl⟩

end

end RCompss.Kernels
