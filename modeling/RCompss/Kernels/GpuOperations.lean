import RCompss.Kernels.RunContext

/-! Work for the device: memory operations, kernels, and the wrappers of cuBLAS and cuSOLVER.
What the device computes is left out; what counts is which stream gets work, which device
memory it reaches, and which call waits for it. -/
namespace RCompss.Kernels
open RCompss.Library

namespace Cuda

/-- The first bytes of live device memory. -/
def reaches (cuda : Cuda) (p : Option ℕ) (bytes : ℕ) : Bool :=
  match cuda.size? .deviceBuffer p with
  | some size => bytes ≤ size
  | none => false

/-- Work on the first bytes of device memory, which should be there. -/
def access (cuda : Cuda) (p : Option ℕ) (bytes : ℕ) : Cuda :=
  if cuda.reaches p bytes then cuda else { cuda with misuses := .deviceBuffer :: cuda.misuses }

def accessAll (cuda : Cuda) (accesses : List (Option ℕ × ℕ)) : Cuda :=
  accesses.foldl (fun cuda a => cuda.access a.1 a.2) cuda

/-- A stream has one piece of work more to do. -/
def enqueue (cuda : Cuda) (stream : Option ℕ) : Cuda :=
  { cuda with unfinished := fun id =>
      if stream = some id then cuda.unfinished id + 1 else cuda.unfinished id }

/-- The device gets one piece of work done. -/
def progress (cuda : Cuda) (stream : ℕ) : Cuda :=
  { cuda with unfinished := Function.update cuda.unfinished stream (cuda.unfinished stream - 1) }

end Cuda

/-- Give a stream work on device memory. Memory is checked here and not when the work is
done, since `cudaFree` waits for all work given before. -/
def enqueue (stream : Option ℕ) (accesses : List (Option ℕ × ℕ)) : MemberM Bool := do
  modifyCuda fun cuda => cuda.touch .stream stream
  let m ← get
  if m.cuda.has .stream stream = true ∧ m.cuda.failing .enqueue = false then
    modifyCuda fun cuda => (cuda.accessAll accesses).enqueue stream
    return true
  else return false

/-- Have a library work on the stream of its handle. -/
def compute (part : Part) (handle : Option ℕ) : MemberM Bool := do
  modifyCuda fun cuda => cuda.touch part handle
  let m ← get
  if m.cuda.has part handle = true ∧ m.cuda.failing (.compute part) = false then
    modifyCuda fun cuda => cuda.enqueue (handle.bind cuda.streamOf)
    return true
  else return false

/-- What the operations end with where they do not leave it to `Sync`. -/
def waitIfSync : MemberM Unit := do
  let m ← get
  onlyIf (m.this.mRunMode = .SYNC) do
    let stream ← RunContext.getStream
    RunContext.streamSynchronize stream

/-- A pointer to new memory. -/
def newMemory (part : Part) (size : ℕ) (e : GpuError) : MemberM (Option ℕ) := do
  let m ← get
  errorCheck e (acquire part size fun _ c => c)
  return some m.cuda.next

inductive MemoryTransfer where
  | HOST_TO_DEVICE | DEVICE_TO_DEVICE | DEVICE_TO_HOST | HOST_TO_HOST
  deriving DecidableEq, Repr

/-- The device memory of a transfer. -/
def MemoryTransfer.accesses (apDestination apSrcDataArray : Option ℕ) (aSizeInBytes : ℕ) :
    MemoryTransfer → List (Option ℕ × ℕ)
  | HOST_TO_DEVICE => [(apDestination, aSizeInBytes)]
  | DEVICE_TO_DEVICE => [(apDestination, aSizeInBytes), (apSrcDataArray, aSizeInBytes)]
  | DEVICE_TO_HOST => [(apSrcDataArray, aSizeInBytes)]
  | HOST_TO_HOST => []

namespace MemoryHandler

def allocateArray (aSizeInBytes : ℕ) (aPlacement : OperationPlacement) : MemberM (Option ℕ) :=
  if aSizeInBytes = 0 then return none
  else match aPlacement with
    | .GPU => newMemory .deviceBuffer aSizeInBytes (.cudaError (.acquire .deviceBuffer))
    | .CPU => newMemory .hostBuffer aSizeInBytes .badAlloc

/-- Returns what becomes of the pointer it is given. -/
def destroyArray (apArray : Option ℕ) (aPlacement : OperationPlacement) :
    MemberM (Option ℕ) := do
  onlyIf (apArray ≠ none) (match aPlacement with
    | .GPU => errorCheck (.cudaError (.release .deviceBuffer)) (cudaFree .deviceBuffer apArray)
    | .CPU => deleteHost apArray)
  return none

/-- The context is the one at hand; host memory is not modelled. -/
def memCpy (apDestination apSrcDataArray : Option ℕ) (aSizeInBytes : ℕ)
    (aTransferType : MemoryTransfer) : MemberM Unit :=
  onlyIf (aSizeInBytes ≠ 0 ∧ aTransferType ≠ .HOST_TO_HOST) do
    let m ← get
    onlyIf (m.this.mOperationPlacement = .CPU) (throw (.cpuOperation "Memcpy"))
    let stream ← RunContext.getStream
    errorCheck (.cudaError .enqueue)
      (enqueue stream (aTransferType.accesses apDestination apSrcDataArray aSizeInBytes))
    waitIfSync

def memset (apDestination : Option ℕ) (aSizeInBytes : ℕ) (aPlacement : OperationPlacement) :
    MemberM Unit :=
  onlyIf (aPlacement = .GPU) do
    let m ← get
    onlyIf (m.this.mOperationPlacement = .CPU) (throw (.cpuOperation "Memset"))
    let stream ← RunContext.getStream
    errorCheck (.cudaError .enqueue) (enqueue stream [(apDestination, aSizeInBytes)])
    waitIfSync

end MemoryHandler

/-- Blocks of 256 threads, counted in `size_t` and given to the launch as `unsigned`. -/
def blocksPerGrid (aNumElements : ℕ) : ℕ := (aNumElements + 255) % 2 ^ 64 / 256 % 2 ^ 32

/-- Each thread works on the element of its own number, if there is one. A launch of no
blocks is an error, and no error of a launch is looked at. -/
def launch (aNumElements : ℕ) (accesses : List (Option ℕ × ℕ)) : MemberM Unit := do
  let stream ← RunContext.getStream
  onlyIf (blocksPerGrid aNumElements ≠ 0) do
    let _ ← enqueue stream accesses
  RunContext.sync

namespace CudaVectorKernels

/-- Of elements of `width` bytes. -/
def vectorAdd (width : ℕ) (a b result : Option ℕ) (aNumElements : ℕ) : MemberM Unit :=
  launch aNumElements
    [(a, aNumElements * width), (b, aNumElements * width), (result, aNumElements * width)]

def vectorMultiply (width : ℕ) (a b result : Option ℕ) (aNumElements : ℕ) : MemberM Unit :=
  launch aNumElements
    [(a, aNumElements * width), (b, aNumElements * width), (result, aNumElements * width)]

end CudaVectorKernels

/-- `CudaMemoryKernels::Copy`, from elements of one width to elements of another. -/
def CudaMemoryKernels.copy (widthT widthX : ℕ) (apSource apDestination : Option ℕ)
    (aNumElements : ℕ) : MemberM Unit :=
  launch aNumElements [(apSource, aNumElements * widthT), (apDestination, aNumElements * widthX)]

section
variable (call : String)

/-- A routine of cuBLAS, with the text of the call. -/
def gpuBlas : MemberM Unit := do
  let h ← RunContext.getCuBlasDnHandle
  errorCheck (.library "cuBLAS" call) (compute .blas h)
  waitIfSync

/-- `cudaMemcpy` of the info word, which waits for itself. -/
def copyInfo (d_info : Option ℕ) : MemberM Bool := do
  modifyCuda fun cuda => cuda.touch .info d_info
  let m ← get
  return m.cuda.has .info d_info = true ∧ m.cuda.failing .copyBack = false

/-- The query for a work space of the solver. -/
def bufferSize (sh : Option ℕ) : MemberM Bool := do
  modifyCuda fun cuda => cuda.touch .solver sh
  let m ← get
  return m.cuda.has .solver sh = true ∧ m.cuda.failing .bufferSize = false

/-- A factorization by cuSOLVER, which answers the query with `lwork` and the call with
`info`. -/
def gpuFactorize (query : String) (lwork info : ℤ) : MemberM ℤ := do
  let sh ← RunContext.getCusolverDnHandle
  errorCheck (.library "cuSOLVER" query) (bufferSize sh)
  let d_work ← (if 0 < lwork then newMemory .deviceBuffer (8 * lwork).toNat
      (.cudaError (.acquire .deviceBuffer)) else return none)
  let d_info ← RunContext.getInfoPointer
  errorCheck (.library "cuSOLVER" call) (compute .solver sh)
  waitIfSync
  onlyIf (d_work ≠ none)
    (errorCheck (.cudaError (.release .deviceBuffer)) (cudaFree .deviceBuffer d_work))
  errorCheck (.cudaError .copyBack) (copyInfo d_info)
  return info

/-- A solution by cuSOLVER from a factorization. -/
def gpuSolve (info : ℤ) : MemberM ℤ := do
  let sh ← RunContext.getCusolverDnHandle
  let d_info ← RunContext.getInfoPointer
  errorCheck (.library "cuSOLVER" call) (compute .solver sh)
  waitIfSync
  errorCheck (.cudaError .copyBack) (copyInfo d_info)
  return info

end

def gpuBlasDgemm : MemberM Unit :=
  gpuBlas "cublasDgemm(h, ta, tb, m, n, k, &alpha, dA, lda, dB, ldb, &beta, dC, ldc)"

def gpuBlasDaxpy : MemberM Unit :=
  gpuBlas "cublasDaxpy(ctx->GetCuBlasDnHandle(), n, &alpha, d_x, 1, d_y, 1)"

def gpuBlasDgemv : MemberM Unit :=
  gpuBlas ("cublasDgemv(ctx->GetCuBlasDnHandle(), op, m, n, &alpha, dA, lda, d_x, 1, &beta, " ++
    "d_y, 1)")

def gpuBlasDdot : MemberM Unit :=
  gpuBlas "cublasDdot(ctx->GetCuBlasDnHandle(), n, d_x, 1, d_y, 1, h_result)"

def gpuBlasDnrm2 : MemberM Unit :=
  gpuBlas "cublasDnrm2(ctx->GetCuBlasDnHandle(), n, d_x, 1, h_result)"

def gpuBlasDscal : MemberM Unit :=
  gpuBlas "cublasDscal(ctx->GetCuBlasDnHandle(), n, &alpha, d_x, 1)"

def gpuBlasDtrmm : MemberM Unit :=
  gpuBlas "cublasDtrmm(h, side, uplo, op, diag, m, n, &alpha, dA, lda, dB, ldb, dC, ldc)"

def gpuBlasDtrsm : MemberM Unit :=
  gpuBlas "cublasDtrsm(h, side, uplo, op, diag, m, n, &alpha, dA, lda, dB, ldb)"

def gpuBlasDsyrk : MemberM Unit :=
  gpuBlas "cublasDsyrk(h, uplo, op, n, k, &alpha, dA, lda, &beta, dC, ldc)"

def gpuSolverDpotrf : ℤ → ℤ → MemberM ℤ :=
  gpuFactorize "cusolverDnDpotrf(sh, uplo, n, dA, lda, d_work, lwork, d_info)"
    "cusolverDnDpotrf_bufferSize(sh, uplo, n, dA, lda, &lwork)"

def gpuSolverDgetrf : ℤ → ℤ → MemberM ℤ :=
  gpuFactorize "cusolverDnDgetrf(sh, m, n, dA, lda, d_work, dIpiv, d_info)"
    "cusolverDnDgetrf_bufferSize(sh, m, n, dA, lda, &lwork)"

def gpuSolverDgetrs : ℤ → MemberM ℤ :=
  gpuSolve "cusolverDnDgetrs(sh, op, n, nrhs, dA, lda, dIpiv, dB, ldb, d_info)"

def gpuSolverDpotrs : ℤ → MemberM ℤ :=
  gpuSolve "cusolverDnDpotrs(sh, uplo, n, nrhs, dA, lda, dB, ldb, d_info)"

/-- The operations on a context that give the device work. -/
inductive GpuOp where
  | memCpy (apDestination apSrcDataArray : Option ℕ) (aSizeInBytes : ℕ)
      (aTransferType : MemoryTransfer)
  | memset (apDestination : Option ℕ) (aSizeInBytes : ℕ) (aPlacement : OperationPlacement)
  | vectorAdd (width : ℕ) (a b result : Option ℕ) (aNumElements : ℕ)
  | vectorMultiply (width : ℕ) (a b result : Option ℕ) (aNumElements : ℕ)
  | copy (widthT widthX : ℕ) (apSource apDestination : Option ℕ) (aNumElements : ℕ)
  | dgemm | daxpy | dgemv | ddot | dnrm2 | dscal | dtrmm | dtrsm | dsyrk
  | dpotrf (lwork info : ℤ)
  | dgetrf (lwork info : ℤ)
  | dgetrs (info : ℤ)
  | dpotrs (info : ℤ)

def GpuOp.run : GpuOp → MemberM Unit
  | memCpy dst src size transfer => MemoryHandler.memCpy dst src size transfer
  | memset dst size placement => MemoryHandler.memset dst size placement
  | vectorAdd width a b result n => CudaVectorKernels.vectorAdd width a b result n
  | vectorMultiply width a b result n => CudaVectorKernels.vectorMultiply width a b result n
  | copy widthT widthX src dst n => CudaMemoryKernels.copy widthT widthX src dst n
  | dgemm => gpuBlasDgemm
  | daxpy => gpuBlasDaxpy
  | dgemv => gpuBlasDgemv
  | ddot => gpuBlasDdot
  | dnrm2 => gpuBlasDnrm2
  | dscal => gpuBlasDscal
  | dtrmm => gpuBlasDtrmm
  | dtrsm => gpuBlasDtrsm
  | dsyrk => gpuBlasDsyrk
  | dpotrf lwork info => do
      let _ ← gpuSolverDpotrf lwork info
  | dgetrf lwork info => do
      let _ ← gpuSolverDgetrf lwork info
  | dgetrs info => do
      let _ ← gpuSolverDgetrs info
  | dpotrs info => do
      let _ ← gpuSolverDpotrs info

end RCompss.Kernels
