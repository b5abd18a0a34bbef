import RCompss.Library.Runs

/-! `RunContext` of the CUDA build: a stream, two library handles, an info word and two work
buffers, acquired and released by calls that can fail. -/
namespace RCompss.Kernels
open RCompss.Library

/-- What is there after a removal was there before. -/
theorem of_update_none {ι α : Type} [DecidableEq ι] {f : ι → Option α} {a b : ι} {x : α}
    (h : Function.update f a none b = some x) : b ≠ a ∧ f b = some x := by
  rw [Function.update_apply] at h
  split at h
  next => contradiction
  next hne => exact ⟨hne, h⟩

inductive OperationPlacement where
  | GPU | CPU
  deriving DecidableEq, Repr

theorem placement_of_ne_cpu {p : OperationPlacement} (h : p ≠ .CPU) : p = .GPU := by
  cases p with
  | GPU => rfl
  | CPU => contradiction

inductive RunMode where
  | SYNC | ASYNC
  deriving DecidableEq, Repr

/-- What a context holds: a CUDA stream, a cuSOLVER and a cuBLAS handle, device memory for
`mpInfo` and for work, host memory for work. -/
inductive Part where
  | stream | solver | blas | info | deviceBuffer | hostBuffer
  deriving DecidableEq, Repr

/-- The calls that can fail: `cudaStreamCreate`, `cusolverDnCreate`, `cublasCreate`,
`cudaMalloc` or `new`; their counterparts; `cudaStreamSynchronize`; work given to a stream,
or to a library by its handle; the query for a solver's work space; `cudaMemcpy`. -/
inductive Call where
  | acquire (part : Part)
  | release (part : Part)
  | synchronize
  | enqueue
  | compute (part : Part)
  | bufferSize
  | copyBack
  deriving DecidableEq

structure Resource where
  part : Part
  size : ℕ
  deriving DecidableEq

/-- The device and the heap, as far as contexts use them. -/
structure Cuda where
  live : ℕ → Option Resource
  next : ℕ
  /-- Parts used or released where there was none, the last first. -/
  misuses : List Part
  /-- Member functions called so far. -/
  time : ℕ
  /-- Which calls fail in each of them. -/
  fails : ℕ → Call → Bool
  /-- The stream that a library handle gives its work to. -/
  streamOf : ℕ → Option ℕ
  /-- How much of the work given to a stream is still to be done. -/
  unfinished : ℕ → ℕ

namespace Cuda

/-- Nothing acquired yet. -/
def fresh (fails : ℕ → Call → Bool) : Cuda :=
  ⟨fun _ => none, 0, [], 0, fails, fun _ => none, fun _ => 0⟩

def failing (cuda : Cuda) (call : Call) : Bool := cuda.fails cuda.time call

/-- The size of the live resource of a kind that a pointer or handle denotes. -/
def size? (cuda : Cuda) (part : Part) (p : Option ℕ) : Option ℕ := do
  let resource ← cuda.live (← p)
  if resource.part = part then some resource.size else none

def has (cuda : Cuda) (part : Part) (p : Option ℕ) : Bool := (cuda.size? part p).isSome

def alloc (cuda : Cuda) (part : Part) (size : ℕ) : Cuda :=
  { cuda with
    live := Function.update cuda.live cuda.next (some ⟨part, size⟩)
    next := cuda.next + 1 }

/-- Any use of a part, which should be there. -/
def touch (cuda : Cuda) (part : Part) (p : Option ℕ) : Cuda :=
  if cuda.has part p then cuda else { cuda with misuses := part :: cuda.misuses }

def kill (cuda : Cuda) (part : Part) (p : Option ℕ) : Cuda :=
  if cuda.has part p then
    { cuda with live := fun id => if p = some id then none else cuda.live id }
  else cuda

def tick (cuda : Cuda) : Cuda := { cuda with time := cuda.time + 1 }

/-- A live library handle is bound to a stream. -/
def bindStream (cuda : Cuda) (part : Part) (handle stream : Option ℕ) : Cuda :=
  if cuda.has part handle then
    { cuda with streamOf := fun h => if handle = some h then stream else cuda.streamOf h }
  else cuda

/-- All work of a stream is done. -/
def drain (cuda : Cuda) (stream : Option ℕ) : Cuda :=
  { cuda with unfinished := fun id => if stream = some id then 0 else cuda.unfinished id }

section
variable (cuda : Cuda) (part : Part) (p : Option ℕ)

theorem size?_eq_some {n : ℕ} :
    cuda.size? part p = some n ↔ ∃ id, p = some id ∧ cuda.live id = some ⟨part, n⟩ := by
  rcases p with _ | id
  · simp [size?]
  rcases h : cuda.live id with _ | ⟨part', n'⟩
  · simp [size?, h]
  · by_cases hpart : part' = part
    · simp [size?, h, hpart]
    · simp [size?, h, hpart]

theorem has_iff : cuda.has part p = true ↔
    ∃ id n, p = some id ∧ cuda.live id = some ⟨part, n⟩ := by
  rw [has, Option.isSome_iff_exists]
  simp only [size?_eq_some]
  exact exists_comm

@[simp] theorem live_touch : (cuda.touch part p).live = cuda.live := by
  unfold touch
  split <;> rfl

@[simp] theorem next_touch : (cuda.touch part p).next = cuda.next := by
  unfold touch
  split <;> rfl

@[simp] theorem failing_touch (call : Call) :
    (cuda.touch part p).failing call = cuda.failing call := by
  unfold touch
  split <;> rfl

@[simp] theorem size?_touch (part' : Part) (p' : Option ℕ) :
    (cuda.touch part p).size? part' p' = cuda.size? part' p' := by
  simp [size?]

@[simp] theorem has_touch (part' : Part) (p' : Option ℕ) :
    (cuda.touch part p).has part' p' = cuda.has part' p' := by
  simp [has]

variable {cuda part p}

/-- Using what is there is no misuse. -/
theorem touch_of_has (h : cuda.has part p = true) : cuda.touch part p = cuda := by
  rw [touch, if_pos h]

theorem misuses_touch {part' : Part} (hne : part' ≠ part) (h : part' ∉ cuda.misuses) :
    part' ∉ (cuda.touch part p).misuses := by
  unfold touch
  split
  · exact h
  · exact List.not_mem_cons_of_ne_of_not_mem hne h

variable (cuda part p)

@[simp] theorem next_kill : (cuda.kill part p).next = cuda.next := by
  unfold kill
  split <;> rfl

@[simp] theorem misuses_kill : (cuda.kill part p).misuses = cuda.misuses := by
  unfold kill
  split <;> rfl

@[simp] theorem failing_kill (call : Call) :
    (cuda.kill part p).failing call = cuda.failing call := by
  unfold kill
  split <;> rfl

variable {cuda part p}

theorem kill_none : cuda.kill part none = cuda := rfl

/-- Killing a part leaves those of other kinds. -/
theorem size?_kill {part' : Part} (hne : part' ≠ part) (p' : Option ℕ) :
    (cuda.kill part p).size? part' p' = cuda.size? part' p' := by
  refine Option.ext fun n => ?_
  rw [size?_eq_some, size?_eq_some]
  refine exists_congr fun id => and_congr_right fun _ => ?_
  unfold kill
  split
  next h =>
    obtain ⟨id', n', rfl, hlive⟩ := (has_iff _ _ _).mp h
    by_cases hid : id' = id
    · subst hid
      simp only [if_true, reduceCtorEq, hlive, Option.some.injEq, Resource.mk.injEq, false_iff]
      exact fun h => hne h.1.symm
    · simp [hid]
  next => rfl

variable (cuda part p) in
@[simp] theorem live_bindStream (stream : Option ℕ) :
    (cuda.bindStream part p stream).live = cuda.live := by
  unfold bindStream
  split <;> rfl

variable (cuda part p) in
@[simp] theorem next_bindStream (stream : Option ℕ) :
    (cuda.bindStream part p stream).next = cuda.next := by
  unfold bindStream
  split <;> rfl

variable (cuda part p) in
@[simp] theorem misuses_bindStream (stream : Option ℕ) :
    (cuda.bindStream part p stream).misuses = cuda.misuses := by
  unfold bindStream
  split <;> rfl

variable (cuda part p) in
@[simp] theorem failing_bindStream (stream : Option ℕ) (call : Call) :
    (cuda.bindStream part p stream).failing call = cuda.failing call := by
  unfold bindStream
  split <;> rfl

/-- Nothing has an identity that is still to be given out. -/
def Fresh (cuda : Cuda) : Prop := ∀ id, cuda.next ≤ id → cuda.live id = none

theorem Fresh.touch (h : cuda.Fresh) (part : Part) (p : Option ℕ) :
    (cuda.touch part p).Fresh := by
  intro id hid
  rw [next_touch] at hid
  rw [live_touch, h id hid]

theorem Fresh.kill (h : cuda.Fresh) (part : Part) (p : Option ℕ) :
    (cuda.kill part p).Fresh := by
  intro id hid
  rw [next_kill] at hid
  unfold Cuda.kill
  split
  · simp only [h id hid, ite_self]
  · exact h id hid

theorem Fresh.alloc (h : cuda.Fresh) (part : Part) (size : ℕ) : (cuda.alloc part size).Fresh := by
  intro id hid
  have hlt : cuda.next < id := hid
  change Function.update cuda.live cuda.next _ id = none
  rw [Function.update_of_ne (by omega), h id (by omega)]

theorem size?_alloc_self (part : Part) (size : ℕ) :
    (cuda.alloc part size).size? part (some cuda.next) = some size := by
  simp [size?, alloc]

/-- What was there is still there. -/
theorem Fresh.size?_alloc (h : cuda.Fresh) {part' : Part} {n : ℕ}
    (hp : cuda.size? part' p = some n) (part : Part) (size : ℕ) :
    (cuda.alloc part size).size? part' p = some n := by
  rcases p with _ | id
  · contradiction
  by_cases hid : id = cuda.next
  · simp [size?, hid, h cuda.next le_rfl] at hp
  · rw [← hp]
    simp [size?, Cuda.alloc, Function.update_of_ne hid]

end

end Cuda

/-- The same parts and the same calls to fail, whatever the work on the streams. -/
structure SameDevice (cuda cuda' : Cuda) : Prop where
  live : cuda'.live = cuda.live
  next : cuda'.next = cuda.next
  misuses : cuda'.misuses = cuda.misuses
  failing : ∀ call, cuda'.failing call = cuda.failing call

namespace SameDevice
variable {cuda cuda' : Cuda}

theorem bindStream (cuda : Cuda) (part : Part) (handle stream : Option ℕ) :
    SameDevice cuda (cuda.bindStream part handle stream) where
  live := cuda.live_bindStream part handle stream
  next := cuda.next_bindStream part handle stream
  misuses := cuda.misuses_bindStream part handle stream
  failing := cuda.failing_bindStream part handle stream

theorem drain (cuda : Cuda) (stream : Option ℕ) : SameDevice cuda (cuda.drain stream) :=
  ⟨rfl, rfl, rfl, fun _ => rfl⟩

theorem size? (h : SameDevice cuda cuda') (part : Part) (p : Option ℕ) :
    cuda'.size? part p = cuda.size? part p := by
  simp only [Cuda.size?, h.live]

theorem has (h : SameDevice cuda cuda') (part : Part) (p : Option ℕ) :
    cuda'.has part p = cuda.has part p := by
  rw [Cuda.has, Cuda.has, h.size?]

theorem fresh (h : SameDevice cuda cuda') (hf : cuda.Fresh) : cuda'.Fresh := by
  intro id hid
  rw [h.next] at hid
  rw [h.live, hf id hid]

end SameDevice

/-- The same parts of some kinds, whatever was done to the others. -/
structure SameParts (keep : Part → Bool) (cuda cuda' : Cuda) : Prop where
  size? : ∀ part, keep part = true → ∀ p, cuda'.size? part p = cuda.size? part p
  misuses : ∀ part, keep part = true → part ∉ cuda.misuses → part ∉ cuda'.misuses
  fresh : cuda.Fresh → cuda'.Fresh
  failing : ∀ call, cuda'.failing call = cuda.failing call

namespace SameParts
variable {keep : Part → Bool} {cuda cuda' cuda'' : Cuda} {part : Part}

theorem refl (cuda : Cuda) : SameParts keep cuda cuda :=
  ⟨fun _ _ _ => rfl, fun _ _ h => h, id, fun _ => rfl⟩

theorem trans (h : SameParts keep cuda cuda') (h' : SameParts keep cuda' cuda'') :
    SameParts keep cuda cuda'' where
  size? part hp p := (h'.size? part hp p).trans (h.size? part hp p)
  misuses part hp hm := h'.misuses part hp (h.misuses part hp hm)
  fresh hf := h'.fresh (h.fresh hf)
  failing call := (h'.failing call).trans (h.failing call)

theorem ne_of_keep {part' : Part} (hpart : keep part = false) (h : keep part' = true) :
    part' ≠ part := by
  rintro rfl
  rw [h] at hpart
  contradiction

theorem touch (hpart : keep part = false) (cuda : Cuda) (p : Option ℕ) :
    SameParts keep cuda (cuda.touch part p) where
  size? _ _ _ := cuda.size?_touch part p _ _
  misuses _ hp h := Cuda.misuses_touch (ne_of_keep hpart hp) h
  fresh hf := hf.touch part p
  failing := cuda.failing_touch part p

theorem kill (hpart : keep part = false) (cuda : Cuda) (p : Option ℕ) :
    SameParts keep cuda (cuda.kill part p) where
  size? _ hp _ := Cuda.size?_kill (ne_of_keep hpart hp) _
  misuses _ _ h := by rwa [cuda.misuses_kill]
  fresh hf := hf.kill part p
  failing := cuda.failing_kill part p

theorem alloc (hpart : keep part = false) (h : cuda.Fresh) (size : ℕ) :
    SameParts keep cuda (cuda.alloc part size) where
  size? part' hp p := by
    refine Option.ext fun n => ?_
    rw [Cuda.size?_eq_some, Cuda.size?_eq_some]
    refine exists_congr fun id => and_congr_right fun _ => ?_
    by_cases hid : id = cuda.next
    · subst hid
      simp only [Cuda.alloc, Function.update_self, h cuda.next le_rfl, Option.some.injEq,
        Resource.mk.injEq, reduceCtorEq, iff_false, not_and]
      exact fun hp' => absurd hp'.symm (ne_of_keep hpart hp)
    · simp [Cuda.alloc, Function.update_of_ne hid]
  misuses _ _ h := h
  fresh hf := hf.alloc part size
  failing _ := rfl

theorem device (h : SameDevice cuda cuda') : SameParts keep cuda cuda' where
  size? part _ p := h.size? part p
  misuses part _ hm := by rwa [h.misuses]
  fresh := h.fresh
  failing := h.failing

theorem has (h : SameParts keep cuda cuda') (hpart : keep part = true) (p : Option ℕ) :
    cuda'.has part p = cuda.has part p := by
  rw [Cuda.has, Cuda.has, h.size? part hpart p]

end SameParts

/-- The members; a handle that was never created is `none`, as is a null pointer. -/
structure RunContext where
  mpInfo : Option ℕ
  mpWorkBufferDevice : Option ℕ
  mWorkBufferSizeDevice : ℕ
  mpWorkBufferHost : Option ℕ
  mWorkBufferSizeHost : ℕ
  mCuSolverHandle : Option ℕ
  mCuBlasHandle : Option ℕ
  mCudaStream : Option ℕ
  mRunMode : RunMode
  mOperationPlacement : OperationPlacement

/-- A context and what it works on. -/
structure Member where
  this : RunContext
  cuda : Cuda

/-- On to the next member function. -/
def Member.tick (m : Member) : Member := { m with cuda := m.cuda.tick }

inductive GpuError where
  | cudaError (call : Call)
  | badAlloc
  | cpuContext
  /-- `operation` on device memory with a CPU context. -/
  | cpuOperation (operation : String)
  /-- A failed `call` to a library. -/
  | library (name call : String)
  deriving DecidableEq

def GpuError.what : GpuError → String
  | cudaError _ => "CUDA error: "
  | badAlloc => "std::bad_alloc"
  | cpuContext => "Cannot get context metadata while running CPU context"
  | cpuOperation operation => "CUDA " ++ operation ++ " cannot be performed with CPU context"
  | library name call => name ++ " error: " ++ call

abbrev MemberM := Exec Member GpuError

def modifyThis (f : RunContext → RunContext) : MemberM Unit :=
  modify fun m => { m with this := f m.this }

def modifyCuda (f : Cuda → Cuda) : MemberM Unit := modify fun m => { m with cuda := f m.cuda }

/-- `GPU_ERROR_CHECK`; a failed `new` raises by itself. -/
def errorCheck (e : GpuError) (x : MemberM Bool) : MemberM Unit := do
  let succeeded ← x
  onlyIf (succeeded = false) (throw e)

/-- Acquire a part into a member, which a failed call leaves as it was. -/
def acquire (part : Part) (size : ℕ) (store : Option ℕ → RunContext → RunContext) :
    MemberM Bool := do
  let m ← get
  if m.cuda.failing (.acquire part) then return false
  else
    set (⟨store (some m.cuda.next) m.this, m.cuda.alloc part size⟩ : Member)
    return true

/-- A call that releases a part; one that fails leaves it. -/
def release (part : Part) (p : Option ℕ) : MemberM Bool := do
  let m ← get
  let cuda := m.cuda.touch part p
  if cuda.failing (.release part) then
    set { m with cuda }
    return false
  else
    set { m with cuda := cuda.kill part p }
    return m.cuda.has part p

/-- `cudaFree`, which takes null pointers. -/
def cudaFree (part : Part) (p : Option ℕ) : MemberM Bool :=
  if p = none then return true else release part p

/-- `delete[]` does not fail. -/
def deleteHost (p : Option ℕ) : MemberM Unit :=
  modifyCuda fun cuda => (cuda.touch .hostBuffer p).kill .hostBuffer p

section
variable {E : GpuError → Member → Prop} {m : Member}

theorem meets_errorCheck {e : GpuError} {x : MemberM Bool} {Q : Unit → Member → Prop} :
    Meets (errorCheck e x) m Q E ↔
      Meets x m (fun b t => if b then Q () t else E e t) E := by
  rw [errorCheck, meets_bind]
  unfold Meets
  rcases exec x m with ⟨e | b, t⟩
  · rfl
  · cases b <;> rfl

theorem keeps_errorCheck {I : Member → Prop} {x : MemberM Bool} (h : Keeps I x)
    (e : GpuError) : Keeps I (errorCheck e x) :=
  h.bind fun _ => (keeps_throw e).onlyIf

theorem meets_acquire {part : Part} {size : ℕ} {store : Option ℕ → RunContext → RunContext}
    {Q : Bool → Member → Prop} :
    Meets (acquire part size store) m Q E ↔
      if m.cuda.failing (.acquire part) then Q false m
      else Q true ⟨store (some m.cuda.next) m.this, m.cuda.alloc part size⟩ := by
  rw [acquire, meets_bind, meets_get]
  split <;> rfl

/-- Releasing what is there. -/
theorem meets_release {part : Part} {p : Option ℕ} (h : m.cuda.has part p = true)
    {Q : Bool → Member → Prop} :
    Meets (release part p) m Q E ↔
      if m.cuda.failing (.release part) then Q false m
      else Q true { m with cuda := m.cuda.kill part p } := by
  rw [release, meets_bind, meets_get]
  simp only [Cuda.touch_of_has h, h]
  split <;> rfl

/-- Freeing a pointer that is null or denotes what is there. -/
theorem meets_cudaFree {part : Part} {p : Option ℕ} (h : p = none ∨ m.cuda.has part p = true)
    {Q : Bool → Member → Prop} :
    Meets (cudaFree part p) m Q E ↔
      if p ≠ none ∧ m.cuda.failing (.release part) then Q false m
      else Q true { m with cuda := m.cuda.kill part p } := by
  rw [cudaFree]
  rcases h with rfl | h
  · rw [if_pos rfl, if_neg fun hnull => hnull.1 rfl]
    rfl
  · have hp : p ≠ none := by
      rintro rfl
      contradiction
    rw [if_neg hp, meets_release h]
    simp only [hp, ne_eq, not_false_eq_true, true_and]

end

/-- Whatever comes of it, releasing a part leaves those of other kinds. -/
theorem release_sameParts {keep : Part → Bool} {part : Part} (hpart : keep part = false)
    (p : Option ℕ) (m : Member) :
    Meets (release part p) m
      (fun b t => t.this = m.this ∧ SameParts keep m.cuda t.cuda ∧
        (b = true → m.cuda.has part p = true ∧ m.cuda.failing (.release part) = false))
      fun _ _ => False := by
  have htouch := SameParts.touch hpart m.cuda p
  rw [release, meets_bind, meets_get]
  dsimp only
  split
  next => exact ⟨rfl, htouch, nofun⟩
  next h =>
    rw [Cuda.failing_touch] at h
    exact ⟨rfl, htouch.trans (SameParts.kill hpart _ p), fun hb =>
      ⟨hb, Bool.eq_false_iff.mpr h⟩⟩

namespace RunContext

/-- The members before the constructor sets them. -/
def raw : RunContext := ⟨none, none, 0, none, 0, none, none, none, .SYNC, .CPU⟩

/-- `cusolverDnSetStream` and `cublasSetStream`; their results are not looked at. -/
def setStream (part : Part) (handle : RunContext → Option ℕ) : MemberM Unit :=
  modify fun m => { m with
    cuda := ((m.cuda.touch part (handle m.this)).touch .stream m.this.mCudaStream).bindStream part
      (handle m.this) m.this.mCudaStream }

theorem meets_setStream {part : Part} {handle : RunContext → Option ℕ} {m : Member}
    (h : m.cuda.has part (handle m.this) = true)
    (hstream : m.cuda.has .stream m.this.mCudaStream = true) {Q : Unit → Member → Prop}
    {E : GpuError → Member → Prop} : Meets (setStream part handle) m Q E ↔
      Q () { m with cuda := m.cuda.bindStream part (handle m.this) m.this.mCudaStream } := by
  rw [setStream, meets_modify, Cuda.touch_of_has h, Cuda.touch_of_has hstream]

/-- Stream, handles and info word, as constructor and `SetOperationPlacement` acquire them;
only the first and the last call are checked. -/
def equip : MemberM Unit := do
  errorCheck (.cudaError (.acquire .stream))
    (acquire .stream 0 fun h c => { c with mCudaStream := h })
  let _ ← acquire .solver 0 fun h c => { c with mCuSolverHandle := h }
  setStream .solver mCuSolverHandle
  let _ ← acquire .blas 0 fun h c => { c with mCuBlasHandle := h }
  setStream .blas mCuBlasHandle
  errorCheck (.cudaError (.acquire .info)) (acquire .info 4 fun p c => { c with mpInfo := p })

def construct (aOperationPlacement : OperationPlacement) (aRunMode : RunMode) :
    MemberM Unit := do
  modifyThis fun c => { c with mpInfo := none }
  onlyIf (aOperationPlacement = .GPU) equip
  modifyThis fun c => { c with
    mWorkBufferSizeHost := 0
    mpWorkBufferHost := none
    mWorkBufferSizeDevice := 0
    mpWorkBufferDevice := none
    mOperationPlacement := aOperationPlacement }
  modifyThis fun c => { c with mRunMode := aRunMode }

/-- `cudaStreamSynchronize`, checked. -/
def streamSynchronize (stream : Option ℕ) : MemberM Unit := do
  modifyCuda fun cuda => cuda.touch .stream stream
  let m ← get
  onlyIf (m.cuda.failing .synchronize = true) (throw (.cudaError .synchronize))
  modifyCuda fun cuda => cuda.drain stream

def sync : MemberM Unit := do
  let m ← get
  onlyIf (m.this.mOperationPlacement = .GPU) (streamSynchronize m.this.mCudaStream)

/-- A context whose stream was used. -/
def synced (m : Member) : Member :=
  { m with cuda := m.cuda.touch .stream m.this.mCudaStream }

/-- A context that has waited for its stream. -/
def drained (m : Member) : Member := { m with cuda := m.cuda.drain m.this.mCudaStream }

theorem meets_streamSynchronize {stream : Option ℕ} {m : Member} {Q : Unit → Member → Prop}
    {E : GpuError → Member → Prop} :
    Meets (streamSynchronize stream) m Q E ↔
      if m.cuda.failing .synchronize then
        E (.cudaError .synchronize) { m with cuda := m.cuda.touch .stream stream }
      else Q () { m with cuda := (m.cuda.touch .stream stream).drain stream } := by
  rw [streamSynchronize, modifyCuda, meets_bind, meets_modify, meets_bind, meets_get, meets_bind,
    meets_onlyIf, Cuda.failing_touch]
  split <;> rfl

theorem meets_sync {m : Member} {Q : Unit → Member → Prop} {E : GpuError → Member → Prop} :
    Meets sync m Q E ↔
      if m.this.mOperationPlacement = .GPU then
        if m.cuda.failing .synchronize then E (.cudaError .synchronize) (synced m)
        else Q () (drained (synced m))
      else Q () m := by
  rw [sync, meets_bind, meets_get, meets_onlyIf, meets_streamSynchronize]
  rfl

/-- Both handles and the stream; return codes are only logged. -/
def destroyHandles : MemberM Unit := do
  let m ← get
  let _ ← release .solver m.this.mCuSolverHandle
  let _ ← release .blas m.this.mCuBlasHandle
  let _ ← release .stream m.this.mCudaStream

/-- The destructor, which never throws. -/
def destroy : MemberM Unit := do
  tryCatch sync fun _ => pure ()
  let m ← get
  let _ ← cudaFree .deviceBuffer m.this.mpWorkBufferDevice
  onlyIf (m.this.mpWorkBufferHost ≠ none) (deleteHost m.this.mpWorkBufferHost)
  onlyIf (m.this.mOperationPlacement = .GPU) do
    destroyHandles
    let _ ← cudaFree .info m.this.mpInfo

def requestWorkBufferDevice (aBufferSize : ℕ) : MemberM (Option ℕ) := do
  let m ← get
  if aBufferSize = 0 then return m.this.mpWorkBufferDevice
  else if m.this.mOperationPlacement = .CPU then throw .cpuContext
  else
    onlyIf (m.this.mWorkBufferSizeDevice < aBufferSize) do
      errorCheck (.cudaError (.release .deviceBuffer))
        (cudaFree .deviceBuffer m.this.mpWorkBufferDevice)
      modifyThis fun c => { c with mWorkBufferSizeDevice := aBufferSize }
      errorCheck (.cudaError (.acquire .deviceBuffer))
        (acquire .deviceBuffer aBufferSize fun p c => { c with mpWorkBufferDevice := p })
    let m ← get
    return m.this.mpWorkBufferDevice

def requestWorkBufferHost (aBufferSize : ℕ) : MemberM (Option ℕ) := do
  let m ← get
  if aBufferSize = 0 then return m.this.mpWorkBufferHost
  else if m.this.mOperationPlacement = .CPU then throw .cpuContext
  else
    onlyIf (m.this.mWorkBufferSizeHost < aBufferSize) do
      onlyIf (m.this.mpWorkBufferHost ≠ none) (deleteHost m.this.mpWorkBufferHost)
      modifyThis fun c => { c with mWorkBufferSizeHost := aBufferSize }
      errorCheck .badAlloc
        (acquire .hostBuffer aBufferSize fun p c => { c with mpWorkBufferHost := p })
    let m ← get
    return m.this.mpWorkBufferHost

def clearUp : MemberM Unit := do
  let m ← get
  onlyIf (m.this.mOperationPlacement = .GPU) do
    sync
    errorCheck (.cudaError (.release .deviceBuffer))
      (cudaFree .deviceBuffer m.this.mpWorkBufferDevice)
    onlyIf (m.this.mpWorkBufferHost ≠ none) (deleteHost m.this.mpWorkBufferHost)
    destroyHandles
    errorCheck (.cudaError (.release .info)) (cudaFree .info m.this.mpInfo)
  modifyThis fun c => { c with
    mpInfo := none
    mWorkBufferSizeDevice := 0
    mpWorkBufferDevice := none
    mWorkBufferSizeHost := 0
    mpWorkBufferHost := none }

def freeWorkBufferDevice : MemberM Unit := do
  let m ← get
  onlyIf (m.this.mOperationPlacement = .GPU) do
    sync
    errorCheck (.cudaError (.release .deviceBuffer))
      (cudaFree .deviceBuffer m.this.mpWorkBufferDevice)

def freeWorkBufferHost : MemberM Unit := do
  let m ← get
  onlyIf (m.this.mOperationPlacement = .GPU) do
    sync
    onlyIf (m.this.mpWorkBufferHost ≠ none) (deleteHost m.this.mpWorkBufferHost)

def setOperationPlacement (aOperationPlacement : OperationPlacement) : MemberM Unit := do
  let m ← get
  if m.this.mOperationPlacement = .GPU ∧ aOperationPlacement = .GPU then
    freeWorkBufferDevice
  else
    clearUp
    modifyThis fun c => { c with mOperationPlacement := aOperationPlacement }
    onlyIf (aOperationPlacement = .GPU) equip

def setRunMode (aRunMode : RunMode) : MemberM Unit := do
  let m ← get
  onlyIf (m.this.mRunMode = .ASYNC ∧ aRunMode = .SYNC) sync
  modifyThis fun c => { c with mRunMode := aRunMode }

/-- A member that only GPU contexts give away. -/
def getMetadata (member : RunContext → Option ℕ) : MemberM (Option ℕ) := do
  let m ← get
  if m.this.mOperationPlacement = .CPU then throw .cpuContext else return member m.this

def getStream : MemberM (Option ℕ) := getMetadata mCudaStream
def getCusolverDnHandle : MemberM (Option ℕ) := getMetadata mCuSolverHandle
def getCuBlasDnHandle : MemberM (Option ℕ) := getMetadata mCuBlasHandle
def getInfoPointer : MemberM (Option ℕ) := getMetadata mpInfo

section
variable {I : Member → Prop}

theorem keeps_getMetadata (member : RunContext → Option ℕ) : Keeps I (getMetadata member) :=
  keeps_get.bind fun _ => Keeps.ite (keeps_throw _) (Keeps.pure _)

/-- The calls on work buffers keep what each of their own steps keeps. -/
theorem keeps_requestWorkBufferDevice {n : ℕ} (hfree : ∀ p, Keeps I (cudaFree .deviceBuffer p))
    (hsize : Keeps I (modifyThis fun c => { c with mWorkBufferSizeDevice := n }))
    (hnew : Keeps I (acquire .deviceBuffer n fun p c => { c with mpWorkBufferDevice := p })) :
    Keeps I (requestWorkBufferDevice n) := by
  refine keeps_get.bind fun _ => Keeps.ite (Keeps.pure _) (Keeps.ite (keeps_throw _) ?_)
  refine Keeps.bind (Keeps.onlyIf ?_) fun _ => keeps_get.bind fun _ => Keeps.pure _
  exact (keeps_errorCheck (hfree _) _).bind fun _ => hsize.bind fun _ => keeps_errorCheck hnew _

theorem keeps_requestWorkBufferHost {n : ℕ}
    (hfree : ∀ p, Keeps I (onlyIf (p ≠ none) (deleteHost p)))
    (hsize : Keeps I (modifyThis fun c => { c with mWorkBufferSizeHost := n }))
    (hnew : Keeps I (acquire .hostBuffer n fun p c => { c with mpWorkBufferHost := p })) :
    Keeps I (requestWorkBufferHost n) := by
  refine keeps_get.bind fun _ => Keeps.ite (Keeps.pure _) (Keeps.ite (keeps_throw _) ?_)
  refine Keeps.bind (Keeps.onlyIf ?_) fun _ => keeps_get.bind fun _ => Keeps.pure _
  exact (hfree _).bind fun _ => hsize.bind fun _ => keeps_errorCheck hnew _

theorem keeps_freeWorkBufferDevice (hsync : Keeps I sync)
    (hfree : ∀ p, Keeps I (cudaFree .deviceBuffer p)) : Keeps I freeWorkBufferDevice :=
  keeps_get.bind fun _ => (hsync.bind fun _ => keeps_errorCheck (hfree _) _).onlyIf

theorem keeps_freeWorkBufferHost (hsync : Keeps I sync)
    (hfree : ∀ p, Keeps I (onlyIf (p ≠ none) (deleteHost p))) : Keeps I freeWorkBufferHost :=
  keeps_get.bind fun _ => (hsync.bind fun _ => hfree _).onlyIf

end

end RunContext

/-- What a caller can do with a context. -/
inductive ContextOp where
  | setOperationPlacement (placement : OperationPlacement)
  | setRunMode (mode : RunMode)
  | sync
  | getStream | getCusolverDnHandle | getCuBlasDnHandle | getInfoPointer
  | requestWorkBufferDevice (size : ℕ)
  | requestWorkBufferHost (size : ℕ)
  | freeWorkBufferDevice
  | freeWorkBufferHost
  | finalizeRunContext

/-- A call, and the pointer it returns, if it returns one. -/
def ContextOp.run : ContextOp → MemberM (Option ℕ)
  | setOperationPlacement p => do
      RunContext.setOperationPlacement p
      return none
  | setRunMode mode => do
      RunContext.setRunMode mode
      return none
  | sync => do
      RunContext.sync
      return none
  | getStream => RunContext.getStream
  | getCusolverDnHandle => RunContext.getCusolverDnHandle
  | getCuBlasDnHandle => RunContext.getCuBlasDnHandle
  | getInfoPointer => RunContext.getInfoPointer
  | requestWorkBufferDevice n => RunContext.requestWorkBufferDevice n
  | requestWorkBufferHost n => RunContext.requestWorkBufferHost n
  | freeWorkBufferDevice => do
      RunContext.freeWorkBufferDevice
      return none
  | freeWorkBufferHost => do
      RunContext.freeWorkBufferHost
      return none
  | finalizeRunContext => do
      -- SyncContext, then FreeWorkBufferHost
      RunContext.sync
      modifyCuda Cuda.tick
      RunContext.freeWorkBufferHost
      return none

/-- The state after a call, returned or thrown. -/
def ContextOp.step (op : ContextOp) (m : Member) : Member := (exec op.run m).2.tick

end RCompss.Kernels
