import RCompss.Kernels.BufferRecords

/-! Buffers are freed once, not used after that, and used within their size, in whatever order
R's calls and the garbage collector come. -/
namespace RCompss.Kernels
open RCompss.Library

section
variable {s : GpuBuffers}

theorem operationContext_meets {context : Option RunContext} {Q : RunContext → GpuBuffers → Prop}
    {E : BufferError → GpuBuffers → Prop} (hQ : ∀ c, Q c s) (hE : ∀ e, E e s) :
    Meets (operationContext context) s Q E := by
  cases context with
  | none => exact hE _
  | some c => exact hQ c

theorem rcompssGpuAlloc_sound (context : Option RunContext) (n : ℤ) (collected : List ℕ) :
    Keeps BuffersSound (rcompssGpuAlloc context n collected) := by
  intro s hs
  rw [rcompssGpuAlloc, meets_bind, meets_onlyIf]
  split
  · exact hs
  rw [meets_bind]
  apply operationContext_meets _ fun _ => hs
  intro ctx
  rw [meets_bind, meets_onlyIf]
  split
  · exact hs
  have hsame : BuffersSound { s with cuda := s.cuda.tick } :=
    hs.others (SameBuffers.tick s.cuda).spares
  rw [meets_bind, meets_onDevice]
  apply (allocateArray_meets _ _).mono
  · rintro p m (⟨rfl, hm⟩ | ⟨rfl, hm⟩)
    · rw [meets_bind, meets_onlyIf, if_pos rfl, hm]
      exact hsame
    · rw [meets_bind, meets_onlyIf, if_neg (Option.some_ne_none _), hm]
      have hnew : BuffersSound (s.allocated (n.toNat * 8)) := hs.allocated _
      have hr : (s.allocated (n.toNat * 8)).records s.nextRecord =
          some ⟨some s.cuda.next, n.toNat * 8⟩ := Function.update_self ..
      change Meets (do
        collected.forM gpuBufferFinalizer
        makeExternalPtr s.nextRecord) (s.allocated (n.toNat * 8)) _ _
      rw [meets_bind]
      apply (finalizers_meet hnew hr fun h _ => hs.not_held h).returns
      rintro _ t ⟨ht, hrt, hhandles⟩
      exact ht.pointed hrt (fun h hh => hs.not_held h (hhandles h hh)) t.nextHandle
  · intro e m hm
    rw [hm]
    exact hsame

theorem rcompssCopyToGpu_sound (context : Option RunContext) (length : ℕ) (handle : HandleSEXP) :
    Keeps BuffersSound (rcompssCopyToGpu context length handle) := by
  intro s hs
  rw [rcompssCopyToGpu, meets_bind]
  apply checkGpuHandle_meets hs _ fun _ => hs
  rintro r ⟨h, -, hh⟩
  obtain ⟨buf, hr⟩ := hs.held h r hh
  rw [meets_bind, meets_readRecord hr, meets_bind, meets_onlyIf]
  split
  · exact hs
  next hle =>
    rw [meets_bind]
    apply operationContext_meets _ fun _ => hs
    intro ctx
    apply hs.onDevice (onlyUses_memCpy _)
    rintro _ ⟨⟩
    · exact hs.reaches hr (not_lt.mp hle)
    · contradiction

theorem rcompssCopyFromGpu_sound (context : Option RunContext) (handle : HandleSEXP)
    (collected : List ℕ) : Keeps BuffersSound (rcompssCopyFromGpu context handle collected) := by
  intro s hs
  rw [rcompssCopyFromGpu, meets_bind]
  apply checkGpuHandle_meets hs _ fun _ => hs
  rintro r ⟨h, rfl, hh⟩
  obtain ⟨buf, hr⟩ := hs.held h r hh
  have hnot : ∀ h' ∈ collected.filter fun h' => HandleSEXP.externalPtr h ≠ .externalPtr h',
      s.handles h' ≠ some r := by
    -- the argument is not among the collected
    intro h' hmem hh'
    have hne := (List.mem_filter.mp hmem).2
    rw [hs.alone h' h r hh' hh] at hne
    simp at hne
  rw [meets_bind, meets_readRecord hr, meets_bind]
  apply (finalizers_meet hs hr hnot).returns
  rintro _ t ⟨ht, hrt, -⟩
  rw [meets_onlyIf]
  split
  · rw [meets_bind]
    apply operationContext_meets _ fun _ => ht
    intro ctx
    rw [meets_bind, meets_readRecord hrt]
    apply ht.onDevice (onlyUses_memCpy _)
    rintro _ ⟨⟩
    · exact ht.reaches hrt le_rfl
    · contradiction
  · exact ht

theorem rcompssGpuVectorAddKernel_sound (context : Option RunContext) (a b r : HandleSEXP) :
    Keeps BuffersSound (rcompssGpuVectorAddKernel context a b r) := by
  intro s hs
  rw [rcompssGpuVectorAddKernel, meets_bind]
  apply checkGpuHandle_meets hs _ fun _ => hs
  rintro a ⟨ha, -, hha⟩
  rw [meets_bind]
  apply checkGpuHandle_meets hs _ fun _ => hs
  rintro b ⟨hb, -, hhb⟩
  rw [meets_bind]
  apply checkGpuHandle_meets hs _ fun _ => hs
  rintro r ⟨hr, -, hhr⟩
  obtain ⟨bufA, hrA⟩ := hs.held ha a hha
  obtain ⟨bufB, hrB⟩ := hs.held hb b hhb
  obtain ⟨bufR, hrR⟩ := hs.held hr r hhr
  rw [meets_bind, meets_readRecord hrA, meets_bind, meets_readRecord hrB, meets_bind,
    meets_readRecord hrR, meets_bind, meets_onlyIf]
  split
  · exact hs
  next hle =>
    rw [meets_bind]
    apply operationContext_meets _ fun _ => hs
    intro ctx
    apply hs.onDevice (onlyUses_launch _ _)
    have hA : bufR.size_bytes / 8 * 8 ≤ bufA.size_bytes := by omega
    have hB : bufR.size_bytes / 8 * 8 ≤ bufB.size_bytes := by omega
    have hR : bufR.size_bytes / 8 * 8 ≤ bufR.size_bytes := by omega
    simp only [List.forall_mem_cons, List.not_mem_nil, false_implies, implies_true, and_true]
    exact ⟨hs.reaches hrA hA, hs.reaches hrB hB, hs.reaches hrR hR⟩

/-- Whatever R calls and whenever it collects. -/
theorem bufferOp_sound (hs : BuffersSound s) {op : BufferOp} (hop : op.allowed s) :
    BuffersSound (op.step s) := by
  have hkeep (h : Keeps BuffersSound op.run) : BuffersSound (op.step s) := (h s hs).state
  have hfinalize (h : ℕ) : Keeps BuffersSound (gpuBufferFinalizer h) := fun _ ht =>
    (gpuBufferFinalizer_meets ht h).returns fun _ _ hu => hu.sound
  cases op with
  | alloc context n collected =>
    exact hkeep ((rcompssGpuAlloc_sound context n collected).bind fun _ => .pure _)
  | copyTo context length handle => exact hkeep (rcompssCopyToGpu_sound context length handle)
  | copyFrom context handle collected =>
    exact hkeep (rcompssCopyFromGpu_sound context handle collected)
  | vectorAddKernel context a b r => exact hkeep (rcompssGpuVectorAddKernel_sound context a b r)
  | free handle =>
    cases handle with
    | other => exact hs
    | externalPtr h => exact hkeep (hfinalize h)
  | finalizer h => exact hkeep (hfinalize h)
  | others cuda => exact hs.others hop

end

/-- An external pointer that was made and is cleared. -/
def Cleared (h : ℕ) (s : GpuBuffers) : Prop := h < s.nextHandle ∧ s.handles h = none

section
variable {s : GpuBuffers} {h : ℕ}

theorem cleared_onDevice {α : Type} (context : RunContext) (x : MemberM α) :
    Keeps (Cleared h) (onDevice context x) := by
  intro s hs
  rw [meets_onDevice]
  unfold Meets
  rcases exec x ⟨context, s.cuda⟩ with ⟨_ | _, m⟩
  · exact hs
  · exact hs

theorem cleared_readRecord (r : ℕ) : Keeps (Cleared h) (readRecord r) := by
  intro s hs
  rw [readRecord, meets_bind, meets_get]
  rcases s.records r with _ | buf
  · exact hs
  · exact hs

theorem cleared_deleteRecord (address : Option ℕ) : Keeps (Cleared h) (deleteRecord address) := by
  cases address with
  | none => exact .pure _
  | some r =>
    apply (cleared_readRecord r).bind
    intro buf
    apply Keeps.bind
    · apply Keeps.onlyIf
      exact (cleared_onDevice _ _).bind fun _ => keeps_modify fun _ hs => hs
    · exact fun _ => keeps_modify fun _ hs => hs

theorem cleared_gpuBufferFinalizer (h' : ℕ) : Keeps (Cleared h) (gpuBufferFinalizer h') := by
  apply keeps_get.bind
  intro s
  apply (cleared_deleteRecord (s.handles h')).bind
  intro _
  apply keeps_modify
  rintro t ⟨hlt, hnull⟩
  refine ⟨hlt, ?_⟩
  change Function.update t.handles h' none h = none
  rw [Function.update_apply, hnull, ite_self]

theorem cleared_checkGpuHandle (handle : HandleSEXP) :
    Keeps (Cleared h) (checkGpuHandle handle) := by
  cases handle with
  | other => exact keeps_throw _
  | externalPtr h' =>
    apply keeps_get.bind
    intro s
    cases s.handles h' with
    | none => exact keeps_throw _
    | some r =>
      exact (cleared_readRecord r).bind fun _ => (keeps_throw _).onlyIf.bind fun _ => .pure r

theorem cleared_operationContext (context : Option RunContext) :
    Keeps (Cleared h) (operationContext context) := by
  cases context with
  | none => exact keeps_throw _
  | some c => exact .pure c

/-- New external pointers are others. -/
theorem cleared_rcompssGpuAlloc (context : Option RunContext) (n : ℤ) (collected : List ℕ) :
    Keeps (Cleared h) (rcompssGpuAlloc context n collected) := by
  apply (keeps_throw _).onlyIf.bind
  intro _
  apply (cleared_operationContext context).bind
  intro ctx
  apply (keeps_throw _).onlyIf.bind
  intro _
  apply (cleared_onDevice ctx _).bind
  intro ptr
  apply (keeps_throw _).onlyIf.bind
  intro _
  apply Keeps.bind (show Keeps (Cleared h) (newRecord _) from fun _ hs => hs)
  intro r
  apply (Keeps.forM cleared_gpuBufferFinalizer collected).bind
  rintro _ s ⟨hlt, hnull⟩
  exact ⟨Nat.lt_succ_of_lt hlt, (Function.update_of_ne hlt.ne _ _).trans hnull⟩

theorem cleared_rcompssCopyToGpu (context : Option RunContext) (length : ℕ)
    (handle : HandleSEXP) : Keeps (Cleared h) (rcompssCopyToGpu context length handle) := by
  apply (cleared_checkGpuHandle handle).bind
  intro r
  apply (cleared_readRecord r).bind
  intro buf
  apply (keeps_throw _).onlyIf.bind
  intro _
  exact (cleared_operationContext context).bind fun ctx => cleared_onDevice ctx _

theorem cleared_rcompssCopyFromGpu (context : Option RunContext) (handle : HandleSEXP)
    (collected : List ℕ) : Keeps (Cleared h) (rcompssCopyFromGpu context handle collected) := by
  apply (cleared_checkGpuHandle handle).bind
  intro r
  apply (cleared_readRecord r).bind
  intro buf
  apply (Keeps.forM cleared_gpuBufferFinalizer _).bind
  intro _
  apply Keeps.onlyIf
  apply (cleared_operationContext context).bind
  intro ctx
  exact (cleared_readRecord r).bind fun _ => cleared_onDevice ctx _

theorem cleared_rcompssGpuVectorAddKernel (context : Option RunContext) (a b r : HandleSEXP) :
    Keeps (Cleared h) (rcompssGpuVectorAddKernel context a b r) := by
  apply (cleared_checkGpuHandle a).bind
  intro a
  apply (cleared_checkGpuHandle b).bind
  intro b
  apply (cleared_checkGpuHandle r).bind
  intro r
  apply (cleared_readRecord a).bind
  intro _
  apply (cleared_readRecord b).bind
  intro _
  apply (cleared_readRecord r).bind
  intro _
  apply (keeps_throw _).onlyIf.bind
  intro _
  exact (cleared_operationContext context).bind fun ctx => cleared_onDevice ctx _

/-- No operation brings a cleared pointer back. -/
theorem cleared_step (hs : Cleared h s) (op : BufferOp) : Cleared h (op.step s) := by
  have hkeep (hop : Keeps (Cleared h) op.run) : Cleared h (op.step s) := (hop s hs).state
  cases op with
  | alloc context n collected =>
    exact hkeep ((cleared_rcompssGpuAlloc context n collected).bind fun _ => .pure _)
  | copyTo context length handle => exact hkeep (cleared_rcompssCopyToGpu context length handle)
  | copyFrom context handle collected =>
    exact hkeep (cleared_rcompssCopyFromGpu context handle collected)
  | vectorAddKernel context a b r => exact hkeep (cleared_rcompssGpuVectorAddKernel context a b r)
  | free handle =>
    cases handle with
    | other => exact hs
    | externalPtr h' => exact hkeep (cleared_gpuBufferFinalizer h')
  | finalizer h' => exact hkeep (cleared_gpuBufferFinalizer h')
  | others cuda => exact hs

/-- Either way of releasing a handle clears it. -/
theorem cleared_of_releases (hs : BuffersSound s) (hlt : h < s.nextHandle) {op : BufferOp}
    (hop : op.releases h) : Cleared h (op.step s) := by
  have hfinalize : Cleared h (exec (gpuBufferFinalizer h) s).2 := by
    apply Meets.state
    apply (gpuBufferFinalizer_meets hs h).returns
    intro _ t ht
    exact ⟨by rwa [ht.nextHandle], ht.null⟩
  cases op with
  | free handle =>
    obtain rfl : handle = .externalPtr h := hop
    exact hfinalize
  | finalizer h' =>
    obtain rfl : h' = h := hop
    exact hfinalize
  | alloc | copyTo | copyFrom | vectorAddKernel | others => exact hop.elim

/-- A cleared handle is refused before anything is done. -/
theorem cleared_refused (hs : BuffersSound s) (hc : Cleared h s) {op : BufferOp}
    (hop : .externalPtr h ∈ op.operands) : ∃ e, exec op.run s = (.error e, s) := by
  have hnot (r : ℕ) : ¬ LeadsTo s (.externalPtr h) r := by
    rintro ⟨_, ⟨⟩, hh⟩
    rw [hc.2] at hh
    contradiction
  have hrefused : Meets op.run s (fun _ _ => False) fun _ t => t = s := by
    cases op with
    | copyTo context length handle =>
      obtain rfl := List.mem_singleton.mp hop
      change Meets (rcompssCopyToGpu _ _ _) _ _ _
      rw [rcompssCopyToGpu, meets_bind]
      exact checkGpuHandle_meets hs (fun r hr => absurd hr (hnot r)) fun _ => rfl
    | copyFrom context handle collected =>
      obtain rfl := List.mem_singleton.mp hop
      change Meets (rcompssCopyFromGpu _ _ _) _ _ _
      rw [rcompssCopyFromGpu, meets_bind]
      exact checkGpuHandle_meets hs (fun r hr => absurd hr (hnot r)) fun _ => rfl
    | vectorAddKernel context a b r =>
      change Meets (rcompssGpuVectorAddKernel _ _ _ _) _ _ _
      rw [rcompssGpuVectorAddKernel, meets_bind]
      refine checkGpuHandle_meets hs (fun ra hra => ?_) fun _ => rfl
      rw [meets_bind]
      refine checkGpuHandle_meets hs (fun rb hrb => ?_) fun _ => rfl
      rw [meets_bind]
      refine checkGpuHandle_meets hs (fun rr hrr => ?_) fun _ => rfl
      simp only [BufferOp.operands, List.mem_cons, List.not_mem_nil, or_false] at hop
      rcases hop with rfl | rfl | rfl
      · exact absurd hra (hnot ra)
      · exact absurd hrb (hnot rb)
      · exact absurd hrr (hnot rr)
    | alloc | free | finalizer | others => exact absurd hop List.not_mem_nil
  obtain ⟨_, _, _, hfalse⟩ | ⟨e, t, hrun, rfl⟩ := hrefused.run
  · exact hfalse.elim
  · exact ⟨e, hrun⟩

/-- With `cudaFree` succeeding, in every state reached: no buffer was freed twice or is still
there once it was freed; no record and no device memory was used that was not there, or past
its size, which is the one recorded; and a handle that is released is refused ever after. -/
theorem gpu_handles_safe {cuda : Cuda} (hfresh : cuda.Fresh)
    (hclean : .deviceBuffer ∉ cuda.misuses)
    (hfree : ∀ time, cuda.fails time (.release .deviceBuffer) = false) {s : GpuBuffers}
    (hreached : Reached BufferOp.step BufferOp.allowed (GpuBuffers.start cuda) s) :
    s.freed.Nodup ∧ (∀ id ∈ s.freed, s.cuda.live id = none) ∧
      .deviceBuffer ∉ s.cuda.misuses ∧ s.misused = false ∧
      (∀ r buf, s.records r = some buf →
        s.cuda.size? .deviceBuffer buf.ptr = some buf.size_bytes) ∧
      ∀ h < s.nextHandle, ∀ release : BufferOp, release.releases h → ∀ t,
        Reached BufferOp.step BufferOp.allowed (release.step s) t →
        ∀ op : BufferOp, .externalPtr h ∈ op.operands → ∃ e, exec op.run t = (.error e, t) := by
  have hs : BuffersSound s := hreached.keeps (.start hfresh hclean hfree) fun _ _ hs hop =>
    bufferOp_sound hs hop
  refine ⟨hs.once, fun id hid => (hs.gone id hid).2, hs.unmisused, hs.intact,
    fun _ _ => hs.size?, ?_⟩
  intro h hlt release hrelease t ht op hop
  have hallowed : release.allowed s := by
    cases release with
    | others => exact hrelease.elim
    | alloc | copyTo | copyFrom | vectorAddKernel | free | finalizer => trivial
  have hrun : BuffersSound t ∧ Cleared h t := by
    apply ht.keeps ⟨bufferOp_sound hs hallowed, cleared_of_releases hs hlt hrelease⟩
    exact fun _ op hu hop => ⟨bufferOp_sound hu.1 hop, cleared_step hu.2 op⟩
  exact cleared_refused hrun.1 hrun.2 hop

/-- A context with the only stream of a device. -/
def streamContext : RunContext :=
  { RunContext.raw with mCudaStream := some 0, mOperationPlacement := .GPU }

def oneStream : Cuda := (Cuda.fresh fun _ _ => false).alloc .stream 0

/-- A sum on the device; its first operand is collected and its second one freed. -/
def summed : GpuBuffers :=
  steps BufferOp.step [.alloc (some streamContext) 2 [], .alloc (some streamContext) 3 [],
    .alloc (some streamContext) 2 [], .copyTo (some streamContext) 2 (.externalPtr 0),
    .vectorAddKernel (some streamContext) (.externalPtr 0) (.externalPtr 1) (.externalPtr 2),
    .copyFrom (some streamContext) (.externalPtr 2) [0, 2], .free (.externalPtr 1)]
    (GpuBuffers.start oneStream)

/-- Freed again, the second operand is refused, and still freed once. -/
theorem freed_again_refused : summed.freed = [2, 1] ∧ summed.freed.Nodup ∧
    ∃ e, exec (BufferOp.copyFrom (some streamContext) (.externalPtr 1) []).run
      ((BufferOp.free (.externalPtr 1)).step summed) =
        (.error e, (BufferOp.free (.externalPtr 1)).step summed) := by
  have hfresh : oneStream.Fresh := Cuda.Fresh.alloc (fun _ _ => rfl) .stream 0
  have hreached : Reached BufferOp.step BufferOp.allowed (GpuBuffers.start oneStream) summed := by
    apply Reached.start.allowed
    simp [BufferOp.allowed]
  have hsafe := gpu_handles_safe hfresh nofun (fun _ => rfl) hreached
  have hrefused := hsafe.2.2.2.2.2 1 (by decide) (.free (.externalPtr 1)) rfl _ .start
    (.copyFrom (some streamContext) (.externalPtr 1) []) (by decide)
  exact ⟨by decide, hsafe.1, hrefused⟩

end
end RCompss.Kernels
