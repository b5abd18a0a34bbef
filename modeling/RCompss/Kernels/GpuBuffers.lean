import RCompss.Kernels.GpuOperations

/-! GPU buffers that R holds by external pointers: a pointer has the address of a record, the
record that of device memory, and both go when the buffer is freed or collected. -/
namespace RCompss.Kernels
open RCompss.Library

structure GpuBufferHandle where
  ptr : Option ℕ
  size_bytes : ℕ
  deriving DecidableEq

/-- The device, the records given out by `new`, and the external pointers made for them. -/
structure GpuBuffers where
  cuda : Cuda
  records : ℕ → Option GpuBufferHandle
  nextRecord : ℕ
  /-- The address in an external pointer, unless it is cleared. -/
  handles : ℕ → Option ℕ
  nextHandle : ℕ
  /-- What was freed on the device, the last first. -/
  freed : List ℕ
  /-- A record was used or deleted where there was none. -/
  misused : Bool

/-- What R passes for a handle. -/
inductive HandleSEXP where
  | externalPtr (h : ℕ)
  | other
  deriving DecidableEq

inductive BufferError where
  | stop (message : String)
  | runtimeError (what : String)
  /-- What C++ leaves undefined. -/
  | undefined
  deriving DecidableEq

abbrev BufferM := Exec GpuBuffers BufferError

/-- A session that has no buffers yet. -/
def GpuBuffers.start (cuda : Cuda) : GpuBuffers :=
  ⟨cuda, fun _ => none, 0, fun _ => none, 0, [], false⟩

/-- A call that works on the device; it leaves the context as it is. -/
def onDevice {α : Type} (context : RunContext) (x : MemberM α) : BufferM α := do
  let s ← get
  let (r, m) := exec x ⟨context, s.cuda⟩
  set { s with cuda := m.cuda.tick }
  match r with
  | .ok a => return a
  | .error e => throw (.runtimeError e.what)

def readRecord (r : ℕ) : BufferM GpuBufferHandle := do
  let s ← get
  match s.records r with
  | some buf => return buf
  | none =>
      set { s with misused := true }
      throw .undefined

def newRecord (buf : GpuBufferHandle) : BufferM ℕ := do
  let s ← get
  set { s with
    records := Function.update s.records s.nextRecord (some buf)
    nextRecord := s.nextRecord + 1 }
  return s.nextRecord

def makeExternalPtr (r : ℕ) : BufferM ℕ := do
  let s ← get
  set { s with
    handles := Function.update s.handles s.nextHandle (some r)
    nextHandle := s.nextHandle + 1 }
  return s.nextHandle

/-- `ContextManager::GetOperationContext`; any context can be the current one. -/
def operationContext : Option RunContext → BufferM RunContext
  | some context => return context
  | none => throw (.runtimeError "No current operation context available")

/-- `DestroyArray` of a buffer; the context it is given is null. -/
def destroyBuffer (r : ℕ) (buf : GpuBufferHandle) : BufferM Unit := do
  let ptr ← onDevice RunContext.raw (MemoryHandler.destroyArray buf.ptr .GPU)
  modify fun s => { s with
    records := Function.update s.records r (some { buf with ptr })
    freed := buf.ptr.toList ++ s.freed }

/-- The buffer is destroyed and the record deleted, if there is one. -/
def deleteRecord : Option ℕ → BufferM Unit
  | none => return
  | some r => do
      let buf ← readRecord r
      onlyIf (buf.ptr ≠ none) (destroyBuffer r buf)
      modify fun s => { s with records := Function.update s.records r none }

def gpuBufferFinalizer (h : ℕ) : BufferM Unit := do
  let s ← get
  deleteRecord (s.handles h)
  modify fun s => { s with handles := Function.update s.handles h none }

def checkGpuHandle : HandleSEXP → BufferM ℕ
  | .other => throw (.stop
      "Invalid GPU buffer handle (expected external pointer from rcompss_gpu_alloc).")
  | .externalPtr h => do
      let s ← get
      match s.handles h with
      | none => throw (.stop "GPU buffer handle is null or already freed.")
      | some r =>
          let buf ← readRecord r
          onlyIf (buf.ptr = none) (throw (.stop "GPU buffer handle is null or already freed."))
          return r

/-- `n` is an `int`, so that eight times as much fits. To make an external pointer R may
collect others. -/
def rcompssGpuAlloc (context : Option RunContext) (n : ℤ) (collected : List ℕ) : BufferM ℕ := do
  onlyIf (n ≤ 0) (throw (.stop "rcompss_gpu_alloc: n must be positive."))
  let ctx ← operationContext context
  onlyIf (ctx.mOperationPlacement ≠ .GPU) (throw (.stop
    "Active context must be GPU. Set placement and operation context first."))
  let bytes := n.toNat * 8
  let ptr ← onDevice ctx (MemoryHandler.allocateArray bytes .GPU)
  onlyIf (ptr = none) (throw (.stop "GPU allocation failed."))
  let r ← newRecord ⟨ptr, bytes⟩
  collected.forM gpuBufferFinalizer
  makeExternalPtr r

/-- Of the vector only its length counts. -/
def rcompssCopyToGpu (context : Option RunContext) (length : ℕ) (gpu_handle : HandleSEXP) :
    BufferM Unit := do
  let r ← checkGpuHandle gpu_handle
  let buf ← readRecord r
  onlyIf (buf.size_bytes < length * 8) (throw (.stop "Vector length exceeds GPU buffer size."))
  let ctx ← operationContext context
  onDevice ctx (MemoryHandler.memCpy buf.ptr none (length * 8) .HOST_TO_DEVICE)

/-- For the result R may collect other handles than the argument. -/
def rcompssCopyFromGpu (context : Option RunContext) (gpu_handle : HandleSEXP)
    (collected : List ℕ) : BufferM Unit := do
  let r ← checkGpuHandle gpu_handle
  let buf ← readRecord r
  (collected.filter fun h => gpu_handle ≠ .externalPtr h).forM gpuBufferFinalizer
  onlyIf (0 < buf.size_bytes / 8) do
    let ctx ← operationContext context
    let buf ← readRecord r
    onDevice ctx (MemoryHandler.memCpy none buf.ptr buf.size_bytes .DEVICE_TO_HOST)

/-- The same statements as the finalizer's. -/
def rcompssGpuFree : HandleSEXP → BufferM Unit
  | .other => return
  | .externalPtr h => gpuBufferFinalizer h

def rcompssGpuVectorAddKernel (context : Option RunContext)
    (d_a_handle d_b_handle d_result_handle : HandleSEXP) : BufferM Unit := do
  let a ← checkGpuHandle d_a_handle
  let b ← checkGpuHandle d_b_handle
  let r ← checkGpuHandle d_result_handle
  let a ← readRecord a
  let b ← readRecord b
  let r ← readRecord r
  let n := r.size_bytes / 8
  onlyIf (a.size_bytes < n * 8 ∨ b.size_bytes < n * 8) (throw (.stop
    "Input buffers too small for result length."))
  let ctx ← operationContext context
  onDevice ctx (CudaVectorKernels.vectorAdd 8 a.ptr b.ptr r.ptr n)

/-- Calls from R, each with the operation context of the moment, finalizers at any time, and
what others do with the device. -/
inductive BufferOp where
  | alloc (context : Option RunContext) (n : ℤ) (collected : List ℕ)
  | copyTo (context : Option RunContext) (length : ℕ) (gpu_handle : HandleSEXP)
  | copyFrom (context : Option RunContext) (gpu_handle : HandleSEXP) (collected : List ℕ)
  | vectorAddKernel (context : Option RunContext)
      (d_a_handle d_b_handle d_result_handle : HandleSEXP)
  | free (gpu_handle : HandleSEXP)
  | finalizer (h : ℕ)
  | others (cuda : Cuda)

namespace BufferOp

def run : BufferOp → BufferM Unit
  | alloc context n collected => do
      let _ ← rcompssGpuAlloc context n collected
  | copyTo context length handle => rcompssCopyToGpu context length handle
  | copyFrom context handle collected => rcompssCopyFromGpu context handle collected
  | vectorAddKernel context a b r => rcompssGpuVectorAddKernel context a b r
  | free handle => rcompssGpuFree handle
  | finalizer h => gpuBufferFinalizer h
  | others cuda => modify fun s => { s with cuda }

def step (op : BufferOp) (s : GpuBuffers) : GpuBuffers := (exec op.run s).2

/-- The handles whose buffers a copy or a kernel works on. -/
def operands : BufferOp → List HandleSEXP
  | copyTo _ _ handle | copyFrom _ handle _ => [handle]
  | vectorAddKernel _ a b r => [a, b, r]
  | _ => []

/-- The two ways to release a handle. -/
def releases (h : ℕ) : BufferOp → Prop
  | free handle => handle = .externalPtr h
  | finalizer h' => h' = h
  | _ => False

end BufferOp

/-- What others do leaves the buffers of the records alone, and gives no identity out twice. -/
structure Spares (s : GpuBuffers) (cuda : Cuda) : Prop where
  live : ∀ r buf id, s.records r = some buf → buf.ptr = some id → cuda.live id = s.cuda.live id
  next : s.cuda.next ≤ cuda.next
  gone : ∀ id, id < s.cuda.next → s.cuda.live id = none → cuda.live id = none
  fresh : s.cuda.Fresh → cuda.Fresh
  misuses : .deviceBuffer ∉ s.cuda.misuses → .deviceBuffer ∉ cuda.misuses
  fails : cuda.fails = s.cuda.fails

/-- Whatever is called; only what others do is bounded. -/
def BufferOp.allowed (s : GpuBuffers) : BufferOp → Prop
  | others cuda => Spares s cuda
  | _ => True

end RCompss.Kernels
