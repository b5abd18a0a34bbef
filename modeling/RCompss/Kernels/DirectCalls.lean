import RCompss.Kernels.GpuOperations

/-! R functions that copy vectors to the device, work there, and copy the result back, with
buffers of their own. -/
namespace RCompss.Kernels
open RCompss.Library

inductive BindingError where
  /-- A C++ exception with its text. -/
  | exception (what : String)
  /-- An R error, which passes the handlers of C++. -/
  | rError (message : String)
  deriving DecidableEq

abbrev BindingM := Exec Member BindingError

/-- `Rcpp::stop`. -/
def rcppStop (message : String) : BindingM Unit := throw (.exception message)

/-- A call on the operation context, after which the next calls may fare differently. -/
def inBinding {α : Type} (x : MemberM α) : BindingM α := do
  let m ← get
  let (r, t) := exec x m
  set t.tick
  match r with
  | .ok a => return a
  | .error e => throw (.exception e.what)

/-- Memory for a new R vector; without it R raises an error. -/
def newNumericVector : BindingM Unit := do
  let m ← get
  set m.tick
  onlyIf (m.cuda.failing (.acquire .hostBuffer) = true) (throw (.rError "cannot allocate vector"))

/-- The handler around a whole function. -/
def stopWith {α : Type} (label : String) (x : BindingM α) : BindingM α :=
  tryCatch x fun e => throw (match e with
    | .exception what => .exception (label ++ what)
    | .rError message => .rError message)

/-- The operation context, if there is one, has to be for the GPU. -/
def requireGpuContext (hasContext : Bool) : BindingM Unit := do
  onlyIf (hasContext = false) (rcppStop "No current operation context available")
  let m ← get
  onlyIf (m.this.mOperationPlacement = .CPU) (rcppStop
    "Active operation context is CPU. Set placement to GPU and set a GPU operation context.")

/-- Of the vector only its length counts. -/
def rcompssGpuMemoryRoundtripDouble (hasContext : Bool) (n : ℕ) : BindingM Unit :=
  stopWith "GPU memory roundtrip failed: " do
    requireGpuContext hasContext
    inBinding (RunContext.setRunMode .SYNC)
    let bytes := n * 8
    let d_buf ← inBinding (MemoryHandler.allocateArray bytes .GPU)
    let h_out ← inBinding (MemoryHandler.allocateArray bytes .CPU)
    onlyIf (0 < bytes ∧ (d_buf = none ∨ h_out = none)) (rcppStop
      "Memory allocation failed (device or host buffer).")
    inBinding (MemoryHandler.memCpy d_buf none bytes .HOST_TO_DEVICE)
    inBinding (MemoryHandler.memCpy h_out d_buf bytes .DEVICE_TO_HOST)
    newNumericVector
    let _ ← inBinding (MemoryHandler.destroyArray d_buf .GPU)
    let _ ← inBinding (MemoryHandler.destroyArray h_out .CPU)

def rcompssGpuVectorAdd (hasContext : Bool) (lengthA lengthB : ℕ) : BindingM Unit :=
  stopWith "GPU vector addition failed: " do
    requireGpuContext hasContext
    inBinding (RunContext.setRunMode .SYNC)
    onlyIf (lengthA ≠ lengthB) (rcppStop ("Vectors must have the same size. a.size()=" ++
      lengthA.repr ++ ", b.size()=" ++ lengthB.repr))
    let n := lengthA
    let bytes := n * 8
    let d_a ← inBinding (MemoryHandler.allocateArray bytes .GPU)
    let d_b ← inBinding (MemoryHandler.allocateArray bytes .GPU)
    let d_result ← inBinding (MemoryHandler.allocateArray bytes .GPU)
    onlyIf (0 < bytes ∧ (d_a = none ∨ d_b = none ∨ d_result = none)) (rcppStop
      "GPU memory allocation failed.")
    inBinding (MemoryHandler.memCpy d_a none bytes .HOST_TO_DEVICE)
    inBinding (MemoryHandler.memCpy d_b none bytes .HOST_TO_DEVICE)
    inBinding (CudaVectorKernels.vectorAdd 8 d_a d_b d_result n)
    let h_result ← inBinding (MemoryHandler.allocateArray bytes .CPU)
    onlyIf (h_result = none) (rcppStop "Host memory allocation failed.")
    inBinding (MemoryHandler.memCpy h_result d_result bytes .DEVICE_TO_HOST)
    newNumericVector
    let _ ← inBinding (MemoryHandler.destroyArray d_a .GPU)
    let _ ← inBinding (MemoryHandler.destroyArray d_b .GPU)
    let _ ← inBinding (MemoryHandler.destroyArray d_result .GPU)
    let _ ← inBinding (MemoryHandler.destroyArray h_result .CPU)

end RCompss.Kernels
