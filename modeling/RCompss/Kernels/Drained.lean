import RCompss.Kernels.StreamWork

/-! A context in synchronous mode leaves no work behind. -/
namespace RCompss.Kernels
open RCompss.Library

/-- A handle that is alive works on the stream of the context. -/
def BoundTo (m : Member) (part : Part) (handle : Option ℕ) : Prop :=
  m.cuda.has part handle = true → handle.bind m.cuda.streamOf = m.this.mCudaStream

theorem placement_of_ne_gpu {p : OperationPlacement} (h : p ≠ .GPU) : p = .CPU := by
  cases p with
  | GPU => contradiction
  | CPU => rfl

/-- Nothing is left to do on the stream. -/
def Drained (m : Member) : Prop :=
  ∀ stream, m.this.mCudaStream = some stream → m.cuda.unfinished stream = 0

/-- What a context is owed between calls. -/
structure ContextSound (m : Member) : Prop where
  known : ∀ id, m.this.Owns id → id < m.cuda.next
  idle : ∀ id, m.cuda.next ≤ id → m.cuda.unfinished id = 0
  bound : m.this.mOperationPlacement = .GPU →
    BoundTo m .solver m.this.mCuSolverHandle ∧ BoundTo m .blas m.this.mCuBlasHandle
  drained : m.this.mRunMode = .SYNC ∨ m.this.mOperationPlacement = .CPU → Drained m

section
variable {m t : Member}

theorem Drained.congr (h : Drained m) (hstream : t.this.mCudaStream = m.this.mCudaStream)
    (hle : ∀ id, m.this.mCudaStream = some id → t.cuda.unfinished id ≤ m.cuda.unfinished id) :
    Drained t := by
  intro stream hs
  rw [hstream] at hs
  have hzero := h stream hs
  have hless := hle stream hs
  omega

theorem BoundTo.within {own : ℕ → Prop} {part : Part} {handle : Option ℕ}
    (h : BoundTo m part handle) (hw : Within own m.cuda t.cuda)
    (hknown : ∀ id, handle = some id → id < m.cuda.next)
    (hstream : t.this.mCudaStream = m.this.mCudaStream)
    (hstreamOf : ∀ id, handle = some id → t.cuda.streamOf id = m.cuda.streamOf id) :
    BoundTo t part handle := by
  intro hhas
  obtain ⟨id, n, rfl, hlive⟩ := (Cuda.has_iff _ _ _).mp hhas
  have hold : m.cuda.has part (some id) = true :=
    (Cuda.has_iff _ _ _).mpr ⟨id, n, rfl, hw.live id _ (hknown id rfl) hlive⟩
  rw [hstream, ← h hold]
  exact hstreamOf id rfl

/-- Work on its own stream leaves a context sound, once it is drained where it has to be. -/
theorem ContextSound.busy (hm : ContextSound m) (h : Busy m t)
    (hdrained : m.this.mRunMode = .SYNC ∨ m.this.mOperationPlacement = .CPU → Drained t) :
    ContextSound t := by
  have hstream : t.this.mCudaStream = m.this.mCudaStream :=
    congrArg Streaming.stream h.streaming
  have hsolver : t.this.mCuSolverHandle = m.this.mCuSolverHandle :=
    congrArg Streaming.solver h.streaming
  have hblas : t.this.mCuBlasHandle = m.this.mCuBlasHandle := congrArg Streaming.blas h.streaming
  have hmode : t.this.mRunMode = m.this.mRunMode := congrArg Streaming.mode h.streaming
  have hplacement : t.this.mOperationPlacement = m.this.mOperationPlacement :=
    congrArg Streaming.placement h.streaming
  constructor
  · intro id hid
    rw [owns_of_streaming h.streaming] at hid
    exact (hm.known id hid).trans_le h.within.next
  · exact h.within.idle hm.idle
  · intro hgpu
    rw [hplacement] at hgpu
    obtain ⟨hs, hb⟩ := hm.bound hgpu
    have hbound {part : Part} {handle : Option ℕ} (hbt : BoundTo m part handle)
        (howned : ∀ id, handle = some id → m.this.Owns id) : BoundTo t part handle :=
      hbt.within h.within (fun id hid => hm.known id (howned id hid)) hstream
        fun id hid => h.streamOf id (hm.known id (howned id hid))
    rw [hsolver, hblas]
    exact ⟨hbound hs fun _ hid => .inr (.inl hid), hbound hb fun _ hid => .inr (.inr hid)⟩
  · rw [hmode, hplacement]
    exact hdrained

theorem Drained.quiet (hd : Drained m) (hm : ContextSound m) (h : Quiet m t) : Drained t :=
  hd.congr (congrArg Streaming.stream h.streaming) fun id hid =>
    h.within.unfinished id (hm.known id (.inl hid)) not_false

theorem ContextSound.quiet (hm : ContextSound m) (h : Quiet m t) : ContextSound t :=
  hm.busy h.busy fun hwhen => (hm.drained hwhen).quiet hm h

/-- A call that returns leaves the context sound and the others alone. -/
def Sound {α : Type} (x : MemberM α) (m : Member) : Prop :=
  Meets x m (fun _ t => ContextSound t ∧ OnOwn m t) fun _ _ => True

theorem sound_of_quiet {α : Type} {x : MemberM α} (hm : ContextSound m)
    (hx : Keeps (Quiet m) x) : Sound x m :=
  (hx m (.refl m)).orRaises fun _ _ ht => ⟨hm.quiet ht, ht.onOwn⟩

theorem streamSynchronize_drained (m : Member) :
    Meets (RunContext.streamSynchronize m.this.mCudaStream) m (fun _ t => Quiet m t ∧ Drained t)
      fun _ _ => True := by
  rw [RunContext.meets_streamSynchronize]
  split
  next => trivial
  next =>
    refine ⟨⟨(Within.touch _ _ _).trans (.drain _ _), rfl⟩, fun stream hs => ?_⟩
    exact (Cuda.unfinished_drain _ _ _).trans (if_pos hs)

/-- A GPU context waits for its stream. -/
theorem sync_waits (hgpu : m.this.mOperationPlacement = .GPU) :
    Meets RunContext.sync m (fun _ t => Quiet m t ∧ Drained t) fun _ _ => True := by
  rw [RunContext.sync, meets_bind, meets_get, meets_onlyIf, if_pos hgpu]
  exact streamSynchronize_drained m

theorem sync_drained (hm : ContextSound m) :
    Meets RunContext.sync m (fun _ t => Quiet m t ∧ Drained t) fun _ _ => True := by
  by_cases hgpu : m.this.mOperationPlacement = .GPU
  · exact sync_waits hgpu
  · rw [RunContext.meets_sync, if_neg hgpu]
    exact ⟨.refl m, hm.drained (.inr (placement_of_ne_gpu hgpu))⟩

/-- Members other than stream and handles. -/
theorem onOwn_store {c : RunContext} (h : c.Owns = m.this.Owns) :
    OnOwn m { m with this := c } :=
  ⟨.refl _, fun _ hid => .inl (h ▸ hid)⟩

theorem setRunMode_sound (hm : ContextSound m) (mode : RunMode) :
    Sound (RunContext.setRunMode mode) m := by
  have hstore (t : Member) (ht : Quiet m t) (hd : mode = .SYNC → Drained t) :
      ContextSound { t with this := { t.this with mRunMode := mode } } ∧
        OnOwn m { t with this := { t.this with mRunMode := mode } } := by
    have hsound := hm.quiet ht
    refine ⟨⟨hsound.known, hsound.idle, hsound.bound, ?_⟩, ht.onOwn.trans (onOwn_store rfl)⟩
    rintro (hsync | hcpu)
    · exact hd hsync
    · exact hsound.drained (.inr hcpu)
  unfold Sound
  rw [RunContext.setRunMode, meets_bind, meets_get, meets_bind, meets_onlyIf]
  split
  next =>
    exact (sync_drained hm).orRaises fun _ t ht => hstore t ht.1 fun _ => ht.2
  next hother =>
    refine hstore m (.refl m) fun hsync => hm.drained (.inl ?_)
    rcases hmode : m.this.mRunMode with _ | _
    · rfl
    · exact absurd ⟨hmode, hsync⟩ hother

theorem keeps_quiet_destroyHandles (m : Member) : Keeps (Quiet m) RunContext.destroyHandles :=
  keeps_get.bind fun _ => (keeps_quiet_release m).bind fun _ => (keeps_quiet_release m).bind
    fun _ => (keeps_quiet_release m).bind fun _ => Keeps.pure _

theorem keeps_quiet_freeWorkBufferDevice (m : Member) :
    Keeps (Quiet m) RunContext.freeWorkBufferDevice :=
  RunContext.keeps_freeWorkBufferDevice (keeps_quiet_sync m) fun _ => keeps_quiet_cudaFree m

theorem keeps_quiet_freeWorkBufferHost (m : Member) :
    Keeps (Quiet m) RunContext.freeWorkBufferHost :=
  RunContext.keeps_freeWorkBufferHost (keeps_quiet_sync m) fun _ =>
    (keeps_quiet_deleteHost m).onlyIf

theorem keeps_quiet_requestWorkBufferDevice (n : ℕ) (m : Member) :
    Keeps (Quiet m) (RunContext.requestWorkBufferDevice n) :=
  RunContext.keeps_requestWorkBufferDevice (fun _ => keeps_quiet_cudaFree m)
    (keeps_quiet_modifyThis m fun _ => rfl) (keeps_quiet_acquire m fun _ _ => rfl)

theorem keeps_quiet_requestWorkBufferHost (n : ℕ) (m : Member) :
    Keeps (Quiet m) (RunContext.requestWorkBufferHost n) :=
  RunContext.keeps_requestWorkBufferHost (fun _ => (keeps_quiet_deleteHost m).onlyIf)
    (keeps_quiet_modifyThis m fun _ => rfl) (keeps_quiet_acquire m fun _ _ => rfl)

/-- Whatever is cleared away, the stream was waited for before. -/
theorem clearUp_drained (hm : ContextSound m) :
    Meets RunContext.clearUp m (fun _ t => Quiet m t ∧ Drained t) fun _ _ => True := by
  have hforget (t : Member) : Keeps (Quiet t) (modifyThis fun c => { c with
      mpInfo := none, mWorkBufferSizeDevice := 0, mpWorkBufferDevice := none,
      mWorkBufferSizeHost := 0, mpWorkBufferHost := none }) :=
    keeps_quiet_modifyThis t fun _ => rfl
  rw [RunContext.clearUp, meets_bind, meets_get, meets_bind, meets_onlyIf]
  split
  next =>
    rw [meets_bind]
    apply (sync_drained hm).orRaises
    intro _ t ht
    have hrest : Keeps (Quiet t) (do
        errorCheck (.cudaError (.release .deviceBuffer))
          (cudaFree .deviceBuffer m.this.mpWorkBufferDevice)
        onlyIf (m.this.mpWorkBufferHost ≠ none) (deleteHost m.this.mpWorkBufferHost)
        RunContext.destroyHandles
        errorCheck (.cudaError (.release .info)) (cudaFree .info m.this.mpInfo)) := by
      apply (keeps_errorCheck (keeps_quiet_cudaFree t) _).bind
      intro _
      apply (keeps_quiet_deleteHost t).onlyIf.bind
      intro _
      apply (keeps_quiet_destroyHandles t).bind
      intro _
      exact keeps_errorCheck (keeps_quiet_cudaFree t) _
    apply (hrest t (.refl t)).orRaises
    intro _ u hu
    apply (hforget t u hu).orRaises
    intro _ v hv
    exact ⟨ht.1.trans hv, ht.2.quiet (hm.quiet ht.1) hv⟩
  next hcpu =>
    have hplacement := placement_of_ne_gpu hcpu
    apply (hforget m m (.refl m)).orRaises
    intro _ v hv
    exact ⟨hv, (hm.drained (.inr hplacement)).quiet hm hv⟩

/-- A context with what it needs for GPU work: all that `ContextSound` asks of any placement
and mode. -/
structure Ready (m : Member) : Prop where
  known : ∀ id, m.this.Owns id → id < m.cuda.next
  idle : ∀ id, m.cuda.next ≤ id → m.cuda.unfinished id = 0
  drained : Drained m

theorem Ready.sound (h : Ready m) (hsolver : BoundTo m .solver m.this.mCuSolverHandle)
    (hblas : BoundTo m .blas m.this.mCuBlasHandle) : ContextSound m :=
  ⟨h.known, h.idle, fun _ => ⟨hsolver, hblas⟩, fun _ => h.drained⟩

/-- A handle or the info word is acquired: the other members stay, and what was bound stays
bound. -/
theorem acquire_ready {part : Part} {size : ℕ} {store : Option ℕ → RunContext → RunContext}
    (hm : Ready m) (howns : ∀ p c id, (store p c).Owns id → c.Owns id ∨ p = some id)
    (hstream : ∀ p c, (store p c).mCudaStream = c.mCudaStream) :
    Meets (acquire part size store) m
      (fun _ t => Ready t ∧ OnOwn m t ∧ ∀ (member : RunContext → Option ℕ) (part' : Part),
        (∀ p c, member (store p c) = member c) →
        (∀ id, member m.this = some id → m.this.Owns id) →
        BoundTo m part' (member m.this) → BoundTo t part' (member t.this))
      fun _ _ => False := by
  rw [meets_acquire]
  split
  next => exact ⟨hm, .refl m, fun _ _ _ _ hb => hb⟩
  next =>
    have hw : Within (fun _ => False) m.cuda (m.cuda.alloc part size) := .alloc _ _ _
    refine ⟨⟨fun id hid => ?_, hw.idle hm.idle, ?_⟩,
      ⟨hw.mono fun _ _ => False.elim, fun id hid => ?_⟩, fun member part' hkept hknown hb => ?_⟩
    · rcases howns _ _ id hid with hold | hnew
      · exact (hm.known id hold).trans_le hw.next
      · cases hnew
        exact Nat.lt_succ_self _
    · exact hm.drained.congr (hstream _ _) fun _ _ => le_rfl
    · rcases howns _ _ id hid with hold | hnew
      · exact .inl hold
      · cases hnew
        exact .inr ⟨le_rfl, Nat.lt_succ_self _⟩
    · dsimp only
      rw [hkept]
      exact hb.within hw (fun id hid => hm.known id (hknown id hid)) (hstream _ _) fun _ _ => rfl

theorem setStream_ready {part : Part} {handle : RunContext → Option ℕ} (hm : Ready m)
    (howns : ∀ id, handle m.this = some id → m.this.Owns id) :
    Meets (RunContext.setStream part handle) m
      (fun _ t => (Ready t ∧ OnOwn m t ∧ t.this = m.this) ∧ BoundTo t part (handle t.this) ∧
        ∀ part' h, BoundTo m part' h → BoundTo t part' h) fun _ _ => False := by
  rw [RunContext.setStream, meets_modify]
  have hw : Within m.this.Owns m.cuda (((m.cuda.touch part (handle m.this)).touch .stream
      m.this.mCudaStream).bindStream part (handle m.this) m.this.mCudaStream) :=
    ((Within.touch _ _ _).trans (.touch _ _ _)).trans (.bindStream _ _ _ howns)
  refine ⟨⟨⟨fun id hid => (hm.known id hid).trans_le hw.next, hw.idle hm.idle, ?_⟩,
    ⟨hw, fun _ hid => .inl hid⟩, rfl⟩, fun hhas => ?_, fun part' h hb hhas => ?_⟩
  · exact hm.drained.congr rfl fun _ _ => by simp
  · have hlive : m.cuda.has part (handle m.this) = true := by
      simpa [Cuda.has, Cuda.size?] using hhas
    rcases hh : handle m.this with _ | id
    · rw [hh] at hlive
      contradiction
    · rw [Option.bind_some]
      rw [hh] at hlive
      rw [Cuda.streamOf_bindStream, if_pos (by simp [hlive])]
  · have hlive : m.cuda.has part' h = true := by simpa [Cuda.has, Cuda.size?] using hhas
    rcases h with _ | id
    · contradiction
    · rw [Option.bind_some, Cuda.streamOf_bindStream]
      split
      · rfl
      · simpa using hb hlive

theorem owns_solver {p : Option ℕ} {c : RunContext} {id : ℕ}
    (h : ({ c with mCuSolverHandle := p } : RunContext).Owns id) : c.Owns id ∨ p = some id := by
  rcases h with hstream | hsolver | hblas
  · exact .inl (.inl hstream)
  · exact .inr hsolver
  · exact .inl (.inr (.inr hblas))

theorem owns_blas {p : Option ℕ} {c : RunContext} {id : ℕ}
    (h : ({ c with mCuBlasHandle := p } : RunContext).Owns id) : c.Owns id ∨ p = some id := by
  rcases h with hstream | hsolver | hblas
  · exact .inl (.inl hstream)
  · exact .inl (.inr (.inl hsolver))
  · exact .inr hblas

theorem owns_info {p : Option ℕ} {c : RunContext} {id : ℕ}
    (h : ({ c with mpInfo := p } : RunContext).Owns id) : c.Owns id ∨ p = some id := .inl h

/-- With a new stream no work is left over. -/
theorem newStream_ready (hknown : ∀ id, m.this.Owns id → id < m.cuda.next)
    (hidle : ∀ id, m.cuda.next ≤ id → m.cuda.unfinished id = 0) {t : Member}
    (ht : t = ⟨{ m.this with mCudaStream := some m.cuda.next }, m.cuda.alloc .stream 0⟩) :
    Ready t ∧ OnOwn m t := by
  have howns (id : ℕ) (h : t.this.Owns id) : m.this.Owns id ∨ id = m.cuda.next := by
    subst ht
    rcases h with hstream | hhandle
    · exact .inr (Option.some.inj hstream).symm
    · exact .inl (.inr hhandle)
  have hw : Within (fun _ => False) m.cuda t.cuda := by
    subst ht
    exact .alloc _ _ _
  have hnext : m.cuda.next < t.cuda.next := by
    subst ht
    exact Nat.lt_succ_self _
  refine ⟨⟨fun id hid => ?_, hw.idle hidle, ?_⟩, hw.mono fun _ _ => False.elim, fun id hid => ?_⟩
  · rcases howns id hid with hold | rfl
    · exact (hknown id hold).trans_le hw.next
    · exact hnext
  · intro stream hs
    subst ht
    cases hs
    exact hidle _ le_rfl
  · rcases howns id hid with hold | rfl
    · exact .inl hold
    · exact .inr ⟨le_rfl, hnext⟩

/-- A context that is equipped has a new stream, and what handles it has work there. -/
theorem equip_ready (hknown : ∀ id, m.this.Owns id → id < m.cuda.next)
    (hidle : ∀ id, m.cuda.next ≤ id → m.cuda.unfinished id = 0) :
    Meets RunContext.equip m (fun _ t => (Ready t ∧ BoundTo t .solver t.this.mCuSolverHandle ∧
      BoundTo t .blas t.this.mCuBlasHandle) ∧ OnOwn m t) fun _ _ => True := by
  rw [RunContext.equip, meets_bind, meets_errorCheck, meets_acquire]
  split
  next => trivial
  next =>
  rw [if_pos rfl]
  obtain ⟨ht, hmt⟩ := newStream_ready hknown hidle rfl
  rw [meets_bind]
  apply (acquire_ready ht (fun _ _ _ => owns_solver) fun _ _ => rfl).returns
  intro _ u hu
  obtain ⟨hu, htu, -⟩ := hu
  rw [meets_bind]
  apply (setStream_ready hu fun _ h => .inr (.inl h)).returns
  intro _ v hv
  obtain ⟨⟨hv, huv, -⟩, hvsolver, -⟩ := hv
  rw [meets_bind]
  apply (acquire_ready hv (fun _ _ _ => owns_blas) fun _ _ => rfl).returns
  intro _ w hw
  obtain ⟨hw, hvw, hkept⟩ := hw
  have hwsolver := hkept RunContext.mCuSolverHandle .solver (fun _ _ => rfl)
    (fun _ h => .inr (.inl h)) hvsolver
  rw [meets_bind]
  apply (setStream_ready hw fun _ h => .inr (.inr h)).returns
  intro _ x hx
  obtain ⟨⟨hx, hwx, hthis⟩, hxblas, hkept⟩ := hx
  have hxsolver := hkept .solver _ hwsolver
  rw [← hthis] at hxsolver
  rw [meets_errorCheck]
  apply (acquire_ready hx (fun _ _ _ => owns_info) fun _ _ => rfl).returns
  intro b y hy
  obtain ⟨hy, hxy, hkept⟩ := hy
  split
  next =>
    refine ⟨⟨hy, ?_, ?_⟩, hmt.trans (htu.trans (huv.trans (hvw.trans (hwx.trans hxy))))⟩
    · exact hkept RunContext.mCuSolverHandle .solver (fun _ _ => rfl) (fun _ h => .inr (.inl h))
        hxsolver
    · exact hkept RunContext.mCuBlasHandle .blas (fun _ _ => rfl) (fun _ h => .inr (.inr h)) hxblas
  next => trivial

theorem setOperationPlacement_streams (hm : ContextSound m) (p : OperationPlacement) :
    Sound (RunContext.setOperationPlacement p) m := by
  unfold Sound
  rw [RunContext.setOperationPlacement, meets_bind, meets_get]
  split
  next => exact sound_of_quiet hm (keeps_quiet_freeWorkBufferDevice m)
  next =>
    rw [meets_bind]
    apply (clearUp_drained hm).orRaises
    intro _ t ht
    have hsound := hm.quiet ht.1
    let placed : Member := { t with this := { t.this with mOperationPlacement := p } }
    have hplaced : OnOwn m placed := ht.1.onOwn.trans (onOwn_store rfl)
    rw [meets_bind, modifyThis, meets_modify, meets_onlyIf]
    split
    next =>
      apply (equip_ready (m := placed) hsound.known hsound.idle).orRaises
      intro _ u hu
      exact ⟨hu.1.1.sound hu.1.2.1 hu.1.2.2, hplaced.trans hu.2⟩
    next hcpu =>
      exact ⟨⟨hsound.known, hsound.idle, fun hgpu => absurd hgpu hcpu, fun _ => ht.2⟩, hplaced⟩

/-- A new context is sound. -/
theorem construct_streams (p : OperationPlacement) (mode : RunMode) {cuda : Cuda}
    (hidle : ∀ id, cuda.next ≤ id → cuda.unfinished id = 0) :
    Sound (RunContext.construct p mode) ⟨.raw, cuda⟩ := by
  have hraw (id : ℕ) (h : RunContext.raw.Owns id) : id < cuda.next := by
    rcases h with h | h | h
    all_goals cases h
  unfold Sound
  rw [RunContext.construct, meets_bind, modifyThis, meets_modify, meets_bind, meets_onlyIf]
  split
  next =>
    apply (equip_ready (m := ⟨.raw, cuda⟩) hraw hidle).orRaises
    intro _ t ht
    obtain ⟨⟨hready, hsolver, hblas⟩, hown⟩ := ht
    rw [meets_bind, modifyThis, meets_modify, modifyThis, meets_modify]
    exact ⟨⟨hready.known, hready.idle, fun _ => ⟨hsolver, hblas⟩, fun _ => hready.drained⟩,
      hown.trans (onOwn_store rfl)⟩
  next hcpu =>
    exact ⟨⟨hraw, hidle, fun hgpu => absurd hgpu hcpu, fun _ _ => nofun⟩, onOwn_store rfl⟩

/-- Destroying a context leaves the others alone. -/
theorem destroy_onOwn (m : Member) :
    Meets RunContext.destroy m (fun _ t => OnOwn m t) fun _ t => OnOwn m t := by
  have hdestroy : Keeps (Quiet m) RunContext.destroy := by
    apply ((keeps_quiet_sync m).tryCatch fun _ => Keeps.pure _).bind
    intro _
    apply keeps_get.bind
    intro _
    apply (keeps_quiet_cudaFree m).bind
    intro _
    apply (keeps_quiet_deleteHost m).onlyIf.bind
    intro _
    exact Keeps.onlyIf ((keeps_quiet_destroyHandles m).bind fun _ =>
      (keeps_quiet_cudaFree m).bind fun _ => Keeps.pure _)
  exact (hdestroy m (.refl m)).mono (fun _ _ ht => ht.onOwn) fun _ _ ht => ht.onOwn

/-- Every call on a context. -/
theorem contextOp_sound (hm : ContextSound m) (op : ContextOp) : Sound op.run m := by
  have hdone {x : MemberM Unit} (hx : Sound x m) :
      Sound (do x; return none : MemberM (Option ℕ)) m := by
    unfold Sound
    rw [meets_bind]
    exact hx
  cases op with
  | setOperationPlacement p => exact hdone (setOperationPlacement_streams hm p)
  | setRunMode mode => exact hdone (setRunMode_sound hm mode)
  | sync => exact hdone (sound_of_quiet hm (keeps_quiet_sync m))
  | getStream | getCusolverDnHandle | getCuBlasDnHandle | getInfoPointer =>
    exact sound_of_quiet hm (RunContext.keeps_getMetadata _)
  | requestWorkBufferDevice n => exact sound_of_quiet hm (keeps_quiet_requestWorkBufferDevice n m)
  | requestWorkBufferHost n => exact sound_of_quiet hm (keeps_quiet_requestWorkBufferHost n m)
  | freeWorkBufferDevice => exact hdone (sound_of_quiet hm (keeps_quiet_freeWorkBufferDevice m))
  | freeWorkBufferHost => exact hdone (sound_of_quiet hm (keeps_quiet_freeWorkBufferHost m))
  | finalizeRunContext =>
    apply sound_of_quiet hm
    apply (keeps_quiet_sync m).bind
    intro _
    apply (keeps_quiet_modifyCuda (fun cuda => .tick cuda) m).bind
    intro _
    exact (keeps_quiet_freeWorkBufferHost m).bind fun _ => Keeps.pure _

end

end RCompss.Kernels
