import RCompss.Kernels.Dgemm
import RCompss.Kernels.ScopedGpuArray
import RCompss.Text

/-! `RcppGpuLinalg`: linear algebra on the device for R. Each function checks its arguments,
holds the arrays it needs in a scope, copies the arguments there, calls a routine and copies
the result back. Of numbers only a `beta` that is zero or not counts. -/
namespace RCompss.Kernels
open RCompss.Library

/-- An argument of a routine: columns of `rows` elements, `ld` apart, in one of the arrays. -/
structure Operand where
  array : ℕ
  rows : ℕ
  cols : ℕ
  ld : ℕ
  width : ℕ

namespace Operand

/-- From its first element to its last. -/
def bytes (o : Operand) : ℕ :=
  if o.rows = 0 ∨ o.cols = 0 then 0 else (o.ld * (o.cols - 1) + o.rows) * o.width

/-- A matrix of `double`. -/
def matrix (array rows cols ld : ℕ) : Operand := ⟨array, rows, cols, ld, 8⟩

/-- A vector with increment one, of a length given as `int`. -/
def vector (array : ℕ) (n : ℤ) (width : ℕ) : Operand := ⟨array, n.toNat, 1, n.toNat, width⟩

end Operand

/-- Of no bytes nothing is accessed. -/
def accessesOf (accesses : List (Option ℕ × ℕ)) : List (Option ℕ × ℕ) :=
  accesses.filter fun a => 0 < a.2

/-- A routine that works on device memory. -/
def onOperands {α : Type} (accesses : List (Option ℕ × ℕ)) (routine : MemberM α) : MemberM α := do
  modifyCuda fun cuda => cuda.accessAll (accessesOf accesses)
  routine

/-- `cudaMemset`, which gives its work to the default stream. -/
def cudaMemset (p : Option ℕ) (bytes : ℕ) : MemberM Bool := do
  let m ← get
  if m.cuda.failing .enqueue then return false
  else
    modifyCuda fun cuda => cuda.accessAll (accessesOf [(p, bytes)])
    return true

/-- What a function does with its arrays, each told by its place among them. -/
inductive ArrayStep where
  /-- `MemCpy` of a whole array from the host. -/
  | upload (array : ℕ)
  | memset (array : ℕ)
  /-- `complaint` is what the function stops with for an answer of the routine. -/
  | compute (operands : List Operand) (routine : MemberM ℤ) (complaint : ℤ → Option String)
  | stop (message : String)
  | newRObject
  /-- A `std::vector`. -/
  | newHostVector (bytes : ℕ)
  | download (array : ℕ)

namespace ArrayStep

/-- A routine of cuBLAS. -/
def blas (operands : List Operand) (routine : MemberM Unit) : ArrayStep :=
  compute operands (do
    routine
    return 0) fun _ => none

def run (arrays : List ScopedGpuArray) : ArrayStep → LinalgM Unit
  | upload i =>
      let array := arrays.getD i ⟨none, 0⟩
      onOperationContext (MemoryHandler.memCpy array.ptr none array.nbytes .HOST_TO_DEVICE)
  | memset i => do
      let array := arrays.getD i ⟨none, 0⟩
      let succeeded ← onOperationContext (cudaMemset array.ptr array.nbytes)
      onlyIf (succeeded = false) (stopLinalg "cudaMemset failed: ")
  | compute operands routine complaint => do
      let info ← onOperationContext (onOperands
        (operands.map fun o => ((arrays.getD o.array ⟨none, 0⟩).ptr, o.bytes)) routine)
      match complaint info with
      | none => return
      | some message => stopLinalg message
  | stop message => stopLinalg message
  | newRObject => likeBinding newNumericVector
  | newHostVector bytes => do
      let m ← get
      onlyIf (0 < bytes ∧ m.cuda.failing (.acquire .hostBuffer) = true)
        (stopLinalg GpuError.badAlloc.what)
  | download i =>
      let array := arrays.getD i ⟨none, 0⟩
      onOperationContext (MemoryHandler.memCpy none array.ptr array.nbytes .DEVICE_TO_HOST)

end ArrayStep

/-- The sizes of the arrays, and what is done with them. -/
structure ArrayPlan where
  arrays : List ℕ
  steps : List ArrayStep

/-- A check without side effects. -/
def checked {α : Type} : Except String α → LinalgM α
  | .ok a => return a
  | .error what => stopLinalg what

/-- What the functions have in common. -/
def linalg (name : String) (hasContext : Bool) (plan : LinalgM ArrayPlan) : LinalgM Unit :=
  tryCatch (do
    let m ← get
    checked (rcompssGpuLinalgRequireContext
      (if hasContext then some m.this.mOperationPlacement else none))
    let p ← plan
    inScopes unwinding ScopedGpuArray.construct ScopedGpuArray.reset p.arrays fun arrays => do
      onlyIf (arrays.all ScopedGpuArray.ok = false)
        (stopLinalg ("GPU allocation failed for " ++ name ++ "."))
      p.steps.forM (ArrayStep.run arrays)) fun e =>
    throw (e.labelled ("rcompss_gpu_" ++ name ++ " failed: "))

/-- A matrix as R allows it. -/
structure RMatrix (α : Type) extends NumericMatrix α where
  nrow_lt : nrow < 2 ^ 31
  ncol_lt : ncol < 2 ^ 31
  length_le : nrow * ncol ≤ 2 ^ 52

/-- `static_cast<int>` of the length of a vector. -/
@[irreducible] def intLength {α : Type} (x : List α) : ℤ := Int.bmod x.length (2 ^ 32)

/-- `static_cast<size_t>(n) * width`. -/
def vectorBytes (n : ℤ) (width : ℕ) : ℕ := (n % 2 ^ 64).toNat * width % 2 ^ 64

/-- `static_cast<size_t>(rows) * static_cast<size_t>(cols) * sizeof(double)`. -/
def matrixBytes (rows cols : ℕ) : ℕ := rows * cols * 8 % 2 ^ 64

/-- What the first letter of a flag means, in any case. -/
def flagValue (meaning : Char → Option Bool) (flag : Text) : Option Bool :=
  flag.head?.bind fun c => meaning c.toUpper

def parseFlag (message : String) (meaning : Char → Option Bool) (flag : Text) : LinalgM Bool :=
  match flagValue meaning flag with
  | some b => return b
  | none => stopLinalg message

def sideLeft (c : Char) : Option Bool :=
  if c = 'L' then some true else if c = 'R' then some false else none

def uploUpper (c : Char) : Option Bool :=
  if c = 'U' then some true else if c = 'L' then some false else none

def transposes (c : Char) : Option Bool :=
  if c = 'N' then some false else if c = 'T' ∨ c = 'C' then some true else none

def unitDiag (c : Char) : Option Bool :=
  if c = 'U' then some true else if c = 'N' then some false else none

def rcompssGpuLinalgParseSideLeft : Text → LinalgM Bool :=
  parseFlag "side must be 'L' or 'R'." sideLeft

def rcompssGpuLinalgParseUpper : Text → LinalgM Bool :=
  parseFlag "uplo must be 'U' or 'L'." uploUpper

def rcompssGpuLinalgParseTrans : Text → LinalgM Bool :=
  parseFlag "trans must be 'N' or 'T'." transposes

def rcompssGpuLinalgParseUnitDiag : Text → LinalgM Bool :=
  parseFlag "diag must be 'N' (non-unit) or 'U' (unit)." unitDiag

/-- `%d×%d`. -/
def dims (rows cols : ℕ) : String := rows.repr ++ "×" ++ cols.repr

/-- The `B` of a solver, which R may give as a vector. -/
inductive RightHandSide (α : Type) where
  | matrix (B : RMatrix α)
  | vector (b : List α)

/-- The number of its columns, once it is a matrix of `n` rows. -/
def RightHandSide.columns {α : Type} (name : String) (n : ℕ) : RightHandSide α → LinalgM ℕ
  | matrix B => do
      onlyIf (B.nrow ≠ n) (stopLinalg (name ++ ": B must have nrow = n (" ++ n.repr ++ ")."))
      return B.ncol
  | vector b => do
      onlyIf (intLength b ≠ n) (stopLinalg (name ++ ": B must have length n (" ++ n.repr ++ ")."))
      likeBinding newNumericVector
      return 1

/-- The calls of R. What the solver answers comes last. -/
inductive LinalgCall (α : Type) where
  | dgemm (A B : RMatrix α) (transA transB : Bool) (beta : α)
  | daxpy (x y : List α)
  | dpotrf (A : RMatrix α) (lwork info : ℤ)
  | dgemv (A : RMatrix α) (x : List α) (trans : Bool) (beta : α) (y0 : Option (List α))
  | ddot (x y : List α)
  | dnrm2 (x : List α)
  | dscal (x : List α)
  | dtrmm (A B : RMatrix α) (side uplo trans diag : Text)
  | dtrsm (A B : RMatrix α) (side uplo trans diag : Text)
  | dsyrk (A : RMatrix α) (uplo trans : Text) (beta : α) (C0 : Option (RMatrix α))
  | dgetrf (A : RMatrix α) (lwork info : ℤ)
  | dgetrs (LU : RMatrix α) (pivot : List ℤ) (B : RightHandSide α) (info : ℤ)
  | dpotrs (chol : RMatrix α) (B : RightHandSide α) (info : ℤ)

namespace GpuLinalg
variable {α : Type}

section
variable [Zero α] [DecidableEq α]

def rcompssGpuDgemm (A B : RMatrix α) (transA transB : Bool) (beta : α) : LinalgM ArrayPlan := do
  let d ← checked (dgemmDims A.toNumericMatrix B.toNumericMatrix transA transB)
  return {
    arrays := [matrixBytes A.nrow A.ncol, matrixBytes B.nrow B.ncol, matrixBytes d.m d.n]
    steps := [.upload 0, .upload 1] ++
      (if beta ≠ 0 then
        [.stop "Non-zero beta for dgemm is not supported in this binding (pass beta=0)."]
      else []) ++
      [.blas [.matrix 0 (d.storedRowsA transA) (d.storedColsA transA) d.lda,
        .matrix 1 (d.storedRowsB transB) (d.storedColsB transB) d.ldb,
        .matrix 2 d.m d.n d.ldc] gpuBlasDgemm, .newRObject, .download 2] }

def rcompssGpuDgemv (A : RMatrix α) (x : List α) (trans : Bool) (beta : α)
    (y0 : Option (List α)) : LinalgM ArrayPlan := do
  let m := A.nrow
  let n := A.ncol
  let out_len := if trans then n else m
  let x_expect := if trans then m else n
  onlyIf (intLength x ≠ x_expect) (stopLinalg ("DGEMV: x has wrong length (expected " ++
    x_expect.repr ++ ", got " ++ toString (intLength x) ++ ")."))
  return {
    arrays := [matrixBytes m n, vectorBytes x_expect 8, vectorBytes out_len 8]
    steps := [.upload 0, .upload 1] ++
      (if beta ≠ 0 then
        match y0 with
        | none => [.stop ("DGEMV: beta is non-zero; provide y0 with length " ++ out_len.repr ++
            ".")]
        | some y0v =>
            if intLength y0v ≠ out_len then
              [.stop ("DGEMV: y0 must have length " ++ out_len.repr ++ " (got " ++
                toString (intLength y0v) ++ ").")]
            else [.upload 2]
      else [.memset 2]) ++
      [.blas [.matrix 0 m n m, .vector 1 x_expect 8, .vector 2 out_len 8] gpuBlasDgemv,
        .newRObject, .download 2] }

def rcompssGpuDsyrk (A : RMatrix α) (uplo trans : Text) (beta : α) (C0 : Option (RMatrix α)) :
    LinalgM ArrayPlan := do
  let _ ← rcompssGpuLinalgParseUpper uplo
  let transA ← rcompssGpuLinalgParseTrans trans
  let n := if transA then A.ncol else A.nrow
  onlyIf (A.nrow = 0 ∨ A.ncol = 0) (stopLinalg "DSYRK: A must be non-empty.")
  return {
    arrays := [matrixBytes A.nrow A.ncol, matrixBytes n n]
    steps := [.upload 0] ++
      (if beta ≠ 0 then
        match C0 with
        | none => [.stop "DSYRK: beta is non-zero; provide C0 (n×n)."]
        | some C0m =>
            if C0m.nrow ≠ n ∨ C0m.ncol ≠ n then
              [.stop ("DSYRK: C0 must be " ++ dims n n ++ " (got " ++ dims C0m.nrow C0m.ncol ++
                ").")]
            else [.upload 1]
      else [.memset 1]) ++
      [.blas [.matrix 0 A.nrow A.ncol A.nrow, .matrix 1 n n n] gpuBlasDsyrk, .newRObject,
        .download 1] }

end

/-- The two vectors of a function have one length. -/
def sameLength (x y : List α) : LinalgM Unit :=
  onlyIf (intLength y ≠ intLength x) (stopLinalg "x and y must have the same length.")

def rcompssGpuDaxpy (x y : List α) : LinalgM ArrayPlan := do
  let n := intLength x
  sameLength x y
  let bytes := vectorBytes n 8
  return {
    arrays := [bytes, bytes]
    steps := [.upload 0, .upload 1, .blas [.vector 0 n 8, .vector 1 n 8] gpuBlasDaxpy,
      .newRObject, .download 1] }

def rcompssGpuDdot (x y : List α) : LinalgM ArrayPlan := do
  let n := intLength x
  sameLength x y
  let bytes := vectorBytes n 8
  return {
    arrays := [bytes, bytes]
    steps := [.upload 0, .upload 1, .blas [.vector 0 n 8, .vector 1 n 8] gpuBlasDdot] }

def rcompssGpuDnrm2 (x : List α) : LinalgM ArrayPlan := do
  let n := intLength x
  return {
    arrays := [vectorBytes n 8]
    steps := [.upload 0, .blas [.vector 0 n 8] gpuBlasDnrm2] }

def rcompssGpuDscal (x : List α) : LinalgM ArrayPlan := do
  let n := intLength x
  return {
    arrays := [vectorBytes n 8]
    steps := [.upload 0, .blas [.vector 0 n 8] gpuBlasDscal, .newRObject, .download 0] }

def rcompssGpuDpotrf (A : RMatrix α) (lwork info : ℤ) : LinalgM ArrayPlan := do
  let n := A.nrow
  onlyIf (A.ncol ≠ n) (stopLinalg ("A must be square for Cholesky (got " ++
    dims A.nrow A.ncol ++ ")."))
  return {
    arrays := [matrixBytes n n]
    steps := [.upload 0, .compute [.matrix 0 n n n] (gpuSolverDpotrf lwork info) fun info =>
      if info ≠ 0 then some ("DPOTRF failed: matrix is not positive definite (info=" ++
        toString info ++ ").") else none, .newRObject, .download 0] }

def rcompssGpuDgetrf (A : RMatrix α) (lwork info : ℤ) : LinalgM ArrayPlan := do
  let m := A.nrow
  let n := A.ncol
  let min_mn := min m n
  let bytesPiv := vectorBytes min_mn 4
  return {
    arrays := [matrixBytes m n, bytesPiv]
    steps := [.upload 0, .compute [.matrix 0 m n m, .vector 1 min_mn 4]
      (gpuSolverDgetrf lwork info) fun _ => none, .newRObject, .download 0,
      .newHostVector (min_mn * 4), .download 1, .newRObject, .newRObject] }

/-- The arrays of a triangular matrix and of `B`, after the checks of both functions. -/
def triangular (name : String) (A B : RMatrix α) (side uplo trans diag : Text) :
    LinalgM ℕ := do
  let side_left ← rcompssGpuLinalgParseSideLeft side
  let _ ← rcompssGpuLinalgParseUpper uplo
  let _ ← rcompssGpuLinalgParseTrans trans
  let _ ← rcompssGpuLinalgParseUnitDiag diag
  let a_size := if side_left then B.nrow else B.ncol
  onlyIf (A.nrow ≠ a_size ∨ A.ncol ≠ a_size) (stopLinalg (name ++ ": A must be " ++
    dims a_size a_size ++ " (got " ++ dims A.nrow A.ncol ++ ")."))
  return a_size

def rcompssGpuDtrmm (A B : RMatrix α) (side uplo trans diag : Text) : LinalgM ArrayPlan := do
  let a_size ← triangular "DTRMM" A B side uplo trans diag
  let m := B.nrow
  let n := B.ncol
  let bytesB := matrixBytes m n
  return {
    arrays := [matrixBytes A.nrow A.ncol, bytesB, bytesB]
    steps := [.upload 0, .upload 1, .blas [.matrix 0 a_size a_size A.nrow, .matrix 1 m n m,
      .matrix 2 m n m] gpuBlasDtrmm, .newRObject, .download 2] }

def rcompssGpuDtrsm (A B : RMatrix α) (side uplo trans diag : Text) : LinalgM ArrayPlan := do
  let a_size ← triangular "DTRSM" A B side uplo trans diag
  let m := B.nrow
  let n := B.ncol
  return {
    arrays := [matrixBytes A.nrow A.ncol, matrixBytes m n]
    steps := [.upload 0, .upload 1, .blas [.matrix 0 a_size a_size A.nrow, .matrix 1 m n m]
      gpuBlasDtrsm, .newRObject, .download 1] }

def rcompssGpuDgetrs (LU : RMatrix α) (pivot : List ℤ) (B : RightHandSide α) (info : ℤ) :
    LinalgM ArrayPlan := do
  let n := LU.nrow
  onlyIf (LU.ncol ≠ n) (stopLinalg ("dgetrs requires square LU (got " ++
    dims LU.nrow LU.ncol ++ ")."))
  onlyIf (intLength pivot ≠ n) (stopLinalg ("dgetrs: pivot must have length n=" ++ n.repr ++
    " (got " ++ toString (intLength pivot) ++ ")."))
  likeBinding newNumericVector
  let nrhs ← B.columns "dgetrs" n
  return {
    arrays := [matrixBytes n n, matrixBytes n nrhs, vectorBytes n 4]
    steps := [.upload 0, .upload 1, .newHostVector (n * 4), .upload 2,
      .compute [.matrix 0 n n n, .vector 2 n 4, .matrix 1 n nrhs n] (gpuSolverDgetrs info)
        fun info => if info ≠ 0 then some ("DGETRS failed (info=" ++ toString info ++ ").")
          else none, .newRObject, .download 1] }

def rcompssGpuDpotrs (chol : RMatrix α) (B : RightHandSide α) (info : ℤ) :
    LinalgM ArrayPlan := do
  let n := chol.nrow
  onlyIf (chol.ncol ≠ n) (stopLinalg ("dpotrs requires square Cholesky factor (got " ++
    dims chol.nrow chol.ncol ++ ")."))
  likeBinding newNumericVector
  let nrhs ← B.columns "dpotrs" n
  return {
    arrays := [matrixBytes n n, matrixBytes n nrhs]
    steps := [.upload 0, .upload 1, .compute [.matrix 0 n n n, .matrix 1 n nrhs n]
      (gpuSolverDpotrs info) fun info =>
        if info ≠ 0 then some ("DPOTRS failed (info=" ++ toString info ++ ").") else none,
      .newRObject, .download 1] }

end GpuLinalg

namespace LinalgCall
variable {α : Type} [Zero α] [DecidableEq α]
open GpuLinalg

/-- A call, with an operation context or without. -/
def run (hasContext : Bool) : LinalgCall α → LinalgM Unit
  | dgemm A B transA transB beta =>
      linalg "dgemm" hasContext (GpuLinalg.rcompssGpuDgemm A B transA transB beta)
  | daxpy x y => linalg "daxpy" hasContext (rcompssGpuDaxpy x y)
  | dpotrf A lwork info => linalg "dpotrf" hasContext (rcompssGpuDpotrf A lwork info)
  | dgemv A x transA beta y0 =>
      linalg "dgemv" hasContext (rcompssGpuDgemv A x transA beta y0)
  | ddot x y => linalg "ddot" hasContext (rcompssGpuDdot x y)
  | dnrm2 x => linalg "dnrm2" hasContext (rcompssGpuDnrm2 x)
  | dscal x => linalg "dscal" hasContext (rcompssGpuDscal x)
  | dtrmm A B side uplo transA diag =>
      linalg "dtrmm" hasContext (rcompssGpuDtrmm A B side uplo transA diag)
  | dtrsm A B side uplo transA diag =>
      linalg "dtrsm" hasContext (rcompssGpuDtrsm A B side uplo transA diag)
  | dsyrk A uplo transA beta C0 =>
      linalg "dsyrk" hasContext (rcompssGpuDsyrk A uplo transA beta C0)
  | dgetrf A lwork info => linalg "dgetrf" hasContext (rcompssGpuDgetrf A lwork info)
  | dgetrs LU pivot B info => linalg "dgetrs" hasContext (rcompssGpuDgetrs LU pivot B info)
  | dpotrs chol B info => linalg "dpotrs" hasContext (rcompssGpuDpotrs chol B info)

end LinalgCall

end RCompss.Kernels
