import RCompss.Kernels.GpuOperations

/-! What a context's calls do to the streams: they give work to the context's own stream only,
and leave the streams and handles of other contexts alone. -/
namespace RCompss.Kernels
open RCompss.Library

namespace Cuda
variable (cuda : Cuda)

theorem live_alloc (part : Part) (size id : ℕ) :
    (cuda.alloc part size).live id =
      if id = cuda.next then some ⟨part, size⟩ else cuda.live id := by
  simp only [alloc, Function.update_apply]

theorem unfinished_drain (stream : Option ℕ) (id : ℕ) :
    (cuda.drain stream).unfinished id = if stream = some id then 0 else cuda.unfinished id := rfl

theorem unfinished_enqueue (stream : Option ℕ) (id : ℕ) :
    (cuda.enqueue stream).unfinished id =
      if stream = some id then cuda.unfinished id + 1 else cuda.unfinished id := rfl

theorem unfinished_progress (stream id : ℕ) :
    (cuda.progress stream).unfinished id =
      if id = stream then cuda.unfinished stream - 1 else cuda.unfinished id := by
  simp only [progress, Function.update_apply]

@[simp] theorem streamOf_touch (part : Part) (p : Option ℕ) :
    (cuda.touch part p).streamOf = cuda.streamOf := by
  unfold touch
  split <;> rfl

@[simp] theorem unfinished_touch (part : Part) (p : Option ℕ) :
    (cuda.touch part p).unfinished = cuda.unfinished := by
  unfold touch
  split <;> rfl

@[simp] theorem unfinished_bindStream (part : Part) (handle stream : Option ℕ) :
    (cuda.bindStream part handle stream).unfinished = cuda.unfinished := by
  unfold bindStream
  split <;> rfl

/-- A handle that is not bound anew keeps its stream. -/
theorem streamOf_bindStream (part : Part) (handle stream : Option ℕ) (id : ℕ) :
    (cuda.bindStream part handle stream).streamOf id =
      if cuda.has part handle = true ∧ handle = some id then stream else cuda.streamOf id := by
  unfold bindStream
  by_cases h : cuda.has part handle = true
  · simp [h]
  · simp [h]

theorem live_kill {part : Part} {p : Option ℕ} {id : ℕ} {r : Resource}
    (h : (cuda.kill part p).live id = some r) : cuda.live id = some r := by
  unfold kill at h
  split at h
  · dsimp only at h
    split at h
    · contradiction
    · exact h
  · exact h

end Cuda

/-- Identities are new or known; of the known ones only those in `own` get work or are bound
anew, and none comes back to life. -/
structure Within (own : ℕ → Prop) (cuda cuda' : Cuda) : Prop where
  next : cuda.next ≤ cuda'.next
  live : ∀ id r, id < cuda.next → cuda'.live id = some r → cuda.live id = some r
  streamOf : ∀ id, id < cuda.next → ¬ own id → cuda'.streamOf id = cuda.streamOf id
  unfinished : ∀ id, id < cuda.next → ¬ own id → cuda'.unfinished id ≤ cuda.unfinished id
  idle : (∀ id, cuda.next ≤ id → cuda.unfinished id = 0) →
    ∀ id, cuda'.next ≤ id → cuda'.unfinished id = 0

namespace Within
variable {own : ℕ → Prop} {cuda cuda' cuda'' : Cuda}

theorem refl (cuda : Cuda) : Within own cuda cuda :=
  ⟨le_rfl, fun _ _ _ h => h, fun _ _ _ => rfl, fun _ _ _ => le_rfl, id⟩

theorem trans (h : Within own cuda cuda') (h' : Within own cuda' cuda'') :
    Within own cuda cuda'' where
  next := h.next.trans h'.next
  live id r hid hr := h.live id r hid (h'.live id r (hid.trans_le h.next) hr)
  streamOf id hid ho :=
    (h'.streamOf id (hid.trans_le h.next) ho).trans (h.streamOf id hid ho)
  unfinished id hid ho :=
    (h'.unfinished id (hid.trans_le h.next) ho).trans (h.unfinished id hid ho)
  idle hidle := h'.idle (h.idle hidle)

theorem mono {own' : ℕ → Prop} (h : Within own cuda cuda')
    (hown : ∀ id, id < cuda.next → own id → own' id) : Within own' cuda cuda' where
  next := h.next
  live := h.live
  streamOf id hid ho := h.streamOf id hid fun h => ho (hown id hid h)
  unfinished id hid ho := h.unfinished id hid fun h => ho (hown id hid h)
  idle := h.idle

/-- Calls that touch neither streams nor bindings. -/
theorem of_same (hnext : cuda'.next = cuda.next)
    (hlive : ∀ id r, cuda'.live id = some r → cuda.live id = some r)
    (hstreamOf : cuda'.streamOf = cuda.streamOf)
    (hunfinished : cuda'.unfinished = cuda.unfinished) :
    Within own cuda cuda' where
  next := hnext.ge
  live id r _ := hlive id r
  streamOf _ _ _ := by rw [hstreamOf]
  unfinished _ _ _ := by rw [hunfinished]
  idle hidle := by rwa [hnext, hunfinished]

theorem touch (cuda : Cuda) (part : Part) (p : Option ℕ) :
    Within own cuda (cuda.touch part p) := by
  unfold Cuda.touch
  split
  · exact refl cuda
  · exact of_same rfl (fun _ _ h => h) rfl rfl

theorem kill (cuda : Cuda) (part : Part) (p : Option ℕ) :
    Within own cuda (cuda.kill part p) := by
  refine of_same (cuda.next_kill part p) (fun id r h => cuda.live_kill h) ?_ ?_ <;>
    unfold Cuda.kill <;> split <;> rfl

theorem accessAll (cuda : Cuda) (accesses : List (Option ℕ × ℕ)) :
    Within own cuda (cuda.accessAll accesses) := by
  induction accesses generalizing cuda with
  | nil => exact refl cuda
  | cons a accesses ih =>
    refine trans ?_ (ih (cuda.access a.1 a.2))
    unfold Cuda.access
    split
    · exact refl cuda
    · exact of_same rfl (fun _ _ h => h) rfl rfl

theorem tick (cuda : Cuda) : Within own cuda cuda.tick := of_same rfl (fun _ _ h => h) rfl rfl

theorem alloc (cuda : Cuda) (part : Part) (size : ℕ) : Within own cuda (cuda.alloc part size) where
  next := Nat.le_succ _
  live id r hid h := by
    rwa [Cuda.live_alloc, if_neg (Nat.ne_of_lt hid)] at h
  streamOf _ _ _ := rfl
  unfinished _ _ _ := le_rfl
  idle hidle id hid := hidle id (Nat.le_of_succ_le hid)

/-- Work that gets done. -/
theorem of_le (hle : ∀ id, cuda'.unfinished id ≤ cuda.unfinished id)
    (h : cuda' = { cuda with unfinished := cuda'.unfinished }) : Within own cuda cuda' := by
  rw [h]
  refine ⟨le_rfl, fun _ _ _ h => h, fun _ _ _ => rfl, fun id _ _ => hle id, fun hidle id hid => ?_⟩
  exact Nat.le_zero.mp ((hle id).trans_eq (hidle id hid))

theorem drain (cuda : Cuda) (stream : Option ℕ) : Within own cuda (cuda.drain stream) := by
  refine of_le (fun id => ?_) rfl
  rw [Cuda.unfinished_drain]
  split <;> omega

theorem progress (cuda : Cuda) (stream : ℕ) : Within own cuda (cuda.progress stream) := by
  refine of_le (fun id => ?_) rfl
  rw [Cuda.unfinished_progress]
  split
  next h =>
    rw [h]
    omega
  next => exact le_rfl

theorem bindStream (cuda : Cuda) (part : Part) {handle : Option ℕ} (stream : Option ℕ)
    (hown : ∀ id, handle = some id → own id) :
    Within own cuda (cuda.bindStream part handle stream) := by
  unfold Cuda.bindStream
  split
  · refine ⟨le_rfl, fun _ _ _ h => h, fun id _ ho => ?_, fun _ _ _ => le_rfl, fun h => h⟩
    exact if_neg fun h => ho (hown id h)
  · exact refl cuda

theorem enqueue (cuda : Cuda) {stream : Option ℕ} (hown : ∀ id, stream = some id → own id)
    (hknown : ∀ id, stream = some id → id < cuda.next) :
    Within own cuda (cuda.enqueue stream) where
  next := le_rfl
  live _ _ _ h := h
  streamOf _ _ _ := rfl
  unfinished id _ ho := by
    rw [Cuda.unfinished_enqueue, if_neg fun h => ho (hown id h)]
  idle hidle id hid := by
    have hne : stream ≠ some id := fun h => absurd (hknown id h) (not_lt.mpr hid)
    rw [Cuda.unfinished_enqueue, if_neg hne]
    exact hidle id hid

end Within

/-- The stream and the handles a context has, or had before they were destroyed. -/
def RunContext.Owns (c : RunContext) (id : ℕ) : Prop :=
  c.mCudaStream = some id ∨ c.mCuSolverHandle = some id ∨ c.mCuBlasHandle = some id

/-- The context went on with what it owns and what it newly acquired. -/
structure OnOwn (m t : Member) : Prop where
  within : Within m.this.Owns m.cuda t.cuda
  owns : ∀ id, t.this.Owns id → m.this.Owns id ∨ m.cuda.next ≤ id ∧ id < t.cuda.next

theorem OnOwn.trans {m t u : Member} (h : OnOwn m t) (h' : OnOwn t u) : OnOwn m u where
  within := by
    refine ⟨h.within.next.trans h'.within.next, fun id r hid hr => ?_, fun id hid ho => ?_,
      fun id hid ho => ?_, fun hidle => h'.within.idle (h.within.idle hidle)⟩
    · exact h.within.live id r hid (h'.within.live id r (hid.trans_le h.within.next) hr)
    all_goals
      have hid' : id < t.cuda.next := hid.trans_le h.within.next
      have ho' : ¬ t.this.Owns id := by
        intro hown
        rcases h.owns id hown with hm | hnew
        · exact ho hm
        · omega
    · exact (h'.within.streamOf id hid' ho').trans (h.within.streamOf id hid ho)
    · exact (h'.within.unfinished id hid' ho').trans (h.within.unfinished id hid ho)
  owns id hown := by
    have hnext := h.within.next
    have hnext' := h'.within.next
    rcases h'.owns id hown with ht | hnew
    · rcases h.owns id ht with hm | hnew
      · exact .inl hm
      · exact .inr (by omega)
    · exact .inr (by omega)

/-- The members that decide which work goes where. -/
structure Streaming where
  stream : Option ℕ
  solver : Option ℕ
  blas : Option ℕ
  mode : RunMode
  placement : OperationPlacement

def RunContext.streaming (c : RunContext) : Streaming :=
  ⟨c.mCudaStream, c.mCuSolverHandle, c.mCuBlasHandle, c.mRunMode, c.mOperationPlacement⟩

/-- No stream got work and no handle a stream. -/
structure Quiet (m t : Member) : Prop where
  within : Within (fun _ => False) m.cuda t.cuda
  streaming : t.this.streaming = m.this.streaming

/-- Only the context's own stream got work. -/
structure Busy (m t : Member) : Prop where
  within : Within m.this.Owns m.cuda t.cuda
  streamOf : ∀ id, id < m.cuda.next → t.cuda.streamOf id = m.cuda.streamOf id
  streaming : t.this.streaming = m.this.streaming

section
variable {m t u : Member}

theorem owns_of_streaming {c c' : RunContext} (h : c'.streaming = c.streaming) :
    c'.Owns = c.Owns := by
  have hstream : c'.mCudaStream = c.mCudaStream := congrArg Streaming.stream h
  have hsolver : c'.mCuSolverHandle = c.mCuSolverHandle := congrArg Streaming.solver h
  have hblas : c'.mCuBlasHandle = c.mCuBlasHandle := congrArg Streaming.blas h
  funext id
  rw [RunContext.Owns, RunContext.Owns, hstream, hsolver, hblas]

theorem Quiet.refl (m : Member) : Quiet m m := ⟨.refl _, rfl⟩

theorem Quiet.trans (h : Quiet m t) (h' : Quiet t u) : Quiet m u :=
  ⟨h.within.trans h'.within, h'.streaming.trans h.streaming⟩

theorem Quiet.busy (h : Quiet m t) : Busy m t :=
  ⟨h.within.mono fun _ _ => False.elim, fun id hid => h.within.streamOf id hid not_false,
    h.streaming⟩

theorem Busy.trans (h : Busy m t) (h' : Busy t u) : Busy m u := by
  have howns := owns_of_streaming h.streaming
  exact ⟨h.within.trans (howns ▸ h'.within), fun _ hid =>
    (h'.streamOf _ (hid.trans_le h.within.next)).trans (h.streamOf _ hid),
    h'.streaming.trans h.streaming⟩

theorem Busy.onOwn (h : Busy m t) : OnOwn m t :=
  ⟨h.within, fun _ hid => .inl (owns_of_streaming h.streaming ▸ hid)⟩

theorem Quiet.onOwn (h : Quiet m t) : OnOwn m t := h.busy.onOwn

theorem OnOwn.refl (m : Member) : OnOwn m m := (Quiet.refl m).onOwn

/-- A call keeps a relation to the start if each of its steps does. -/
theorem keeps_quiet {α : Type} {x : MemberM α}
    (h : ∀ t, Meets x t (fun _ u => Quiet t u) fun _ u => Quiet t u) (m : Member) :
    Keeps (Quiet m) x := fun t ht =>
  (h t).mono (fun _ _ hu => ht.trans hu) fun _ _ hu => ht.trans hu

theorem keeps_quiet_modifyCuda {f : Cuda → Cuda}
    (hf : ∀ cuda, Within (fun _ => False) cuda (f cuda)) (m : Member) :
    Keeps (Quiet m) (modifyCuda f) := keeps_modify fun t ht => ht.trans ⟨hf t.cuda, rfl⟩

theorem keeps_quiet_modifyThis (m : Member) {f : RunContext → RunContext}
    (hf : ∀ c, (f c).streaming = c.streaming) : Keeps (Quiet m) (modifyThis f) :=
  keeps_modify fun t ht => ht.trans ⟨.refl t.cuda, hf t.this⟩

theorem keeps_quiet_acquire (m : Member) {part : Part} {size : ℕ}
    {store : Option ℕ → RunContext → RunContext}
    (hstore : ∀ p c, (store p c).streaming = c.streaming) :
    Keeps (Quiet m) (acquire part size store) := by
  refine keeps_quiet (fun t => ?_) m
  rw [meets_acquire]
  split
  · exact .refl t
  · exact ⟨.alloc _ _ _, hstore _ _⟩

theorem keeps_quiet_release {part : Part} {p : Option ℕ} (m : Member) :
    Keeps (Quiet m) (release part p) := by
  refine keeps_quiet (fun t => ?_) m
  have htouch : Within (fun _ => False) t.cuda (t.cuda.touch part p) := .touch _ _ _
  rw [release, meets_bind, meets_get]
  dsimp only
  split
  · exact ⟨htouch, rfl⟩
  · exact ⟨htouch.trans (.kill _ _ _), rfl⟩

theorem keeps_quiet_cudaFree {part : Part} {p : Option ℕ} (m : Member) :
    Keeps (Quiet m) (cudaFree part p) := Keeps.ite (Keeps.pure _) (keeps_quiet_release m)

theorem keeps_quiet_deleteHost {p : Option ℕ} (m : Member) : Keeps (Quiet m) (deleteHost p) :=
  keeps_quiet_modifyCuda (fun cuda => (Within.touch cuda _ _).trans (.kill _ _ _)) m

theorem keeps_quiet_streamSynchronize {stream : Option ℕ} (m : Member) :
    Keeps (Quiet m) (RunContext.streamSynchronize stream) := by
  apply (keeps_quiet_modifyCuda (fun cuda => .touch cuda _ _) m).bind
  intro _
  apply keeps_get.bind
  intro _
  apply (keeps_throw _).onlyIf.bind
  intro _
  exact keeps_quiet_modifyCuda (fun cuda => .drain cuda _) m

theorem keeps_quiet_sync (m : Member) : Keeps (Quiet m) RunContext.sync :=
  keeps_get.bind fun _ => (keeps_quiet_streamSynchronize m).onlyIf

end

end RCompss.Kernels
