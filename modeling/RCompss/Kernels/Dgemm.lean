import RCompss.Library.Exec
import RCompss.Kernels.RunContext

/-! The product of two R matrices on the device: the dimensions handed to cuBLAS, and what
comes back. The other calls on the device are taken to succeed. -/
namespace RCompss.Kernels
open RCompss.Library

/-- A matrix of R, stored column after column. -/
structure NumericMatrix (α : Type) where
  nrow : ℕ
  ncol : ℕ
  data : List α
  size : data.length = nrow * ncol

/-- The arguments of `cublasDgemm` that are dimensions. -/
structure GemmDims where
  m : ℕ
  n : ℕ
  k : ℕ
  lda : ℕ
  ldb : ℕ
  ldc : ℕ
  deriving DecidableEq

namespace GemmDims
variable (d : GemmDims) (transA transB : Bool)

def storedRowsA : ℕ := if transA then d.k else d.m
def storedColsA : ℕ := if transA then d.m else d.k
def storedRowsB : ℕ := if transB then d.n else d.k
def storedColsB : ℕ := if transB then d.k else d.n

/-- No leading dimension is smaller than the rows that are stored, or zero. -/
def Accepted : Prop :=
  max 1 (d.storedRowsA transA) ≤ d.lda ∧ max 1 (d.storedRowsB transB) ≤ d.ldb ∧ max 1 d.m ≤ d.ldc

instance : Decidable (d.Accepted transA transB) := inferInstanceAs (Decidable (_ ∧ _ ∧ _))

end GemmDims

namespace NumericMatrix
variable {α : Type} (A B : NumericMatrix α) (trans transA transB : Bool)

def opRows : ℕ := if trans then A.ncol else A.nrow
def opCols : ℕ := if trans then A.nrow else A.ncol

/-- The test of R's `%*%`. -/
def Conformable : Prop := A.opCols transA = B.opRows transB

end NumericMatrix

/-- The branches of `rcompss_gpu_dgemm` up to the allocation of the arrays. -/
def dgemmDims {α : Type} (A B : NumericMatrix α) (transA transB : Bool) :
    Except String GemmDims :=
  if !transA && !transB then
    let m := A.nrow
    let k := A.ncol
    if B.nrow ≠ k then
      .error ("Incompatible dimensions: A is " ++ m.repr ++ "×" ++ k.repr ++ " but B is " ++
        B.nrow.repr ++ "×" ++ B.ncol.repr ++ " (need B nrow = " ++ k.repr ++ ").")
    else .ok { m := m, n := B.ncol, k := k, lda := m, ldb := k, ldc := m }
  else if transA && !transB then
    let k := A.nrow
    let m := A.ncol
    if B.nrow ≠ k then .error "Incompatible dimensions for A' %*% B."
    else .ok { m := m, n := B.ncol, k := k, lda := k, ldb := k, ldc := m }
  else if !transA && transB then
    let m := A.nrow
    let k := A.ncol
    let n := B.nrow
    if B.ncol ≠ k then .error "Incompatible dimensions for A %*% B'."
    else .ok { m := m, n := n, k := k, lda := m, ldb := n, ldc := m }
  else
    let k := A.nrow
    let m := A.ncol
    let n := B.nrow
    if B.ncol ≠ k then .error "Incompatible dimensions for A' %*% B'."
    else .ok { m := m, n := n, k := k, lda := k, ldb := n, ldc := m }

/-- The context, if there is one, has to be for the GPU. -/
def rcompssGpuLinalgRequireContext : Option OperationPlacement → Except String Unit
  | none => .error "No current operation context available"
  | some .CPU => .error ("Active operation context is CPU. Set placement to GPU before calling " ++
      "GPU linear algebra routines.")
  | some .GPU => .ok ()

section
variable {α : Type} {A B : NumericMatrix α} {transA transB : Bool}

theorem dgemmDims_of_conformable (h : A.Conformable B transA transB) :
    dgemmDims A B transA transB = .ok
      { m := A.opRows transA, n := B.opCols transB, k := A.opCols transA
        lda := A.nrow, ldb := B.nrow, ldc := A.opRows transA } := by
  cases transA <;> cases transB <;>
    simp_all [dgemmDims, NumericMatrix.Conformable, NumericMatrix.opRows, NumericMatrix.opCols]

theorem dgemmDims_of_not_conformable (h : ¬ A.Conformable B transA transB) :
    ∃ e, dgemmDims A B transA transB = .error e := by
  have hne : B.opRows transB ≠ A.opCols transA := fun heq => h heq.symm
  cases transA <;> cases transB <;> exact ⟨_, if_pos hne⟩

/-- The dimensions are accepted unless a stored matrix or the result has no rows. -/
theorem dims_accepted_iff (h : A.Conformable B transA transB) {d : GemmDims}
    (hd : dgemmDims A B transA transB = .ok d) :
    d.Accepted transA transB ↔ 1 ≤ A.nrow ∧ 1 ≤ B.nrow ∧ 1 ≤ A.opRows transA := by
  rw [dgemmDims_of_conformable h] at hd
  cases hd
  have hrowsA : (if transA then A.opCols transA else A.opRows transA) = A.nrow := by
    cases transA <;> rfl
  have hrowsB : (if transB then B.opCols transB else A.opCols transA) = B.nrow := by
    rw [NumericMatrix.Conformable] at h
    rw [h]
    cases transB <;> rfl
  unfold GemmDims.Accepted GemmDims.storedRowsA GemmDims.storedRowsB
  simp only [hrowsA, hrowsB]
  omega

end

section
variable {α : Type} [Semiring α]

/-- The element of `op` of an array in a row and a column. -/
def opEntry (trans : Bool) (array : List α) (ld i j : ℕ) : α :=
  if trans then array.getD (i * ld + j) 0 else array.getD (j * ld + i) 0

/-- `cublasDgemm`: from `alpha`, `beta` and the arrays of `A` and `B` the array of `C`, or
`none` for an error status. -/
abbrev CublasDgemm (α : Type) :=
  (transA transB : Bool) → GemmDims → (alpha beta : α) → (a b : List α) → Option (List α)

/-- What is documented of `cublasDgemm`, for a `beta` of zero. -/
structure ComputesProduct (cublasDgemm : CublasDgemm α) : Prop where
  rejects : ∀ transA transB (d : GemmDims) alpha beta a b, ¬ d.Accepted transA transB →
    cublasDgemm transA transB d alpha beta a b = none
  computes : ∀ transA transB (d : GemmDims) alpha a b, d.Accepted transA transB →
    a.length = d.lda * d.storedColsA transA → b.length = d.ldb * d.storedColsB transB →
    ∃ c, cublasDgemm transA transB d alpha 0 a b = some c ∧ c.length = d.ldc * d.n ∧
      ∀ i < d.m, ∀ j < d.n, c.getD (j * d.ldc + i) 0 =
        alpha * ∑ l ∈ Finset.range d.k, opEntry transA a d.lda i l * opEntry transB b d.ldb l j

/-- The element of the matrix or of its transpose. -/
def NumericMatrix.op (A : NumericMatrix α) (trans : Bool) (i j : ℕ) : α :=
  opEntry trans A.data A.nrow i j

/-- `C` is what R's `alpha * (op(A) %*% op(B))` is. -/
structure IsProduct (A B C : NumericMatrix α) (transA transB : Bool) (alpha : α) : Prop where
  nrow : C.nrow = A.opRows transA
  ncol : C.ncol = B.opCols transB
  entry : ∀ i < C.nrow, ∀ j < C.ncol, C.op false i j =
    alpha * ∑ l ∈ Finset.range (A.opCols transA), A.op transA i l * B.op transB l j

/-- The first elements of an array, copied back from the device. -/
def copyToMatrix (m n : ℕ) (c : List α) : NumericMatrix α where
  nrow := m
  ncol := n
  data := (List.range (m * n)).map fun p => c.getD p 0
  size := by rw [List.length_map, List.length_range]

def rcompssGpuDgemm [DecidableEq α] (cublasDgemm : CublasDgemm α)
    (context : Option OperationPlacement) (A B : NumericMatrix α) (transA transB : Bool)
    (alpha beta : α) : Except String (NumericMatrix α) :=
  let result : Except String (NumericMatrix α) := do
    rcompssGpuLinalgRequireContext context
    let d ← dgemmDims A B transA transB
    if beta ≠ 0 then
      throw "Non-zero beta for dgemm is not supported in this binding (pass beta=0)."
    match cublasDgemm transA transB d alpha beta A.data B.data with
    | none => throw ("cuBLAS error: " ++
        "cublasDgemm(h, ta, tb, m, n, k, &alpha, dA, lda, dB, ldb, &beta, dC, ldc)")
    | some c => return copyToMatrix d.m d.n c
  result.mapError ("rcompss_gpu_dgemm failed: " ++ ·)

/-- With a context for the GPU and `beta = 0` the call stops since the matrices do not go
together, or it hands over dimensions that are accepted and returns the product. -/
def MultipliesAsR [DecidableEq α] (cublasDgemm : CublasDgemm α) (A B : NumericMatrix α)
    (transA transB : Bool) (alpha : α) : Prop :=
  let result := rcompssGpuDgemm cublasDgemm (some .GPU) A B transA transB alpha 0
  (¬ A.Conformable B transA transB ∧ ∃ e, dgemmDims A B transA transB = .error e ∧
    result = .error ("rcompss_gpu_dgemm failed: " ++ e)) ∨
  ∃ d C, dgemmDims A B transA transB = .ok d ∧ d.Accepted transA transB ∧ result = .ok C ∧
    IsProduct A B C transA transB alpha

section
variable {A B : NumericMatrix α} {transA transB : Bool} {cublasDgemm : CublasDgemm α}

/-- The elements copied back are those of the array. -/
theorem copyToMatrix_op {m n : ℕ} (c : List α) {i j : ℕ} (hi : i < m) (hj : j < n) :
    (copyToMatrix m n c).op false i j = c.getD (j * m + i) 0 := by
  have hplace : j * m + i < m * n := by
    calc j * m + i < j * m + m := Nat.add_lt_add_left hi _
      _ = (j + 1) * m := (Nat.succ_mul j m).symm
      _ ≤ n * m := Nat.mul_le_mul_right m hj
      _ = m * n := Nat.mul_comm n m
  change ((List.range (m * n)).map fun p => c.getD p 0).getD (j * m + i) 0 = _
  rw [List.getD_eq_getElem?_getD, List.getElem?_map, List.getElem?_range hplace]
  rfl

variable [DecidableEq α]

theorem multipliesAsR_of_not_conformable (h : ¬ A.Conformable B transA transB) (alpha : α) :
    MultipliesAsR cublasDgemm A B transA transB alpha := by
  obtain ⟨e, he⟩ := dgemmDims_of_not_conformable h
  refine .inl ⟨h, e, he, ?_⟩
  unfold rcompssGpuDgemm rcompssGpuLinalgRequireContext
  rw [he]
  rfl

theorem multipliesAsR_of_accepted (hgemm : ComputesProduct cublasDgemm)
    (h : A.Conformable B transA transB) {d : GemmDims} (hd : dgemmDims A B transA transB = .ok d)
    (haccepted : d.Accepted transA transB) (alpha : α) :
    MultipliesAsR cublasDgemm A B transA transB alpha := by
  have hdims := hd.symm.trans (dgemmDims_of_conformable h)
  cases hdims
  have hsizeA : A.data.length = A.nrow *
      (if transA then A.opRows transA else A.opCols transA) := by
    rw [A.size]
    cases transA <;> rfl
  have hsizeB : B.data.length = B.nrow *
      (if transB then A.opCols transA else B.opCols transB) := by
    rw [NumericMatrix.Conformable] at h
    rw [B.size, h]
    cases transB <;> rfl
  obtain ⟨c, hc, -, hentry⟩ :=
    hgemm.computes transA transB _ alpha A.data B.data haccepted hsizeA hsizeB
  refine .inr ⟨_, copyToMatrix (A.opRows transA) (B.opCols transB) c, hd, haccepted, ?_, rfl, rfl,
    fun i hi j hj => ?_⟩
  · unfold rcompssGpuDgemm rcompssGpuLinalgRequireContext
    rw [hd]
    simp only [ne_eq, not_true_eq_false, if_false, Bind.bind, Except.bind, hc]
    rfl
  · have hcopied := copyToMatrix_op (m := A.opRows transA) (n := B.opCols transB) c hi hj
    rw [hcopied]
    exact hentry i hi j hj

/-- The product is R's exactly when the matrices do not go together, or both have a row and so
has the result. -/
theorem multiplies_as_r_iff (hgemm : ComputesProduct cublasDgemm) (A B : NumericMatrix α)
    (transA transB : Bool) (alpha : α) : MultipliesAsR cublasDgemm A B transA transB alpha ↔
      ¬ A.Conformable B transA transB ∨
        1 ≤ A.nrow ∧ 1 ≤ B.nrow ∧ 1 ≤ A.opRows transA := by
  constructor
  · intro h
    rcases h with hstops | ⟨d, C, hd, haccepted, -, -⟩
    · exact .inl hstops.1
    · by_cases hconf : A.Conformable B transA transB
      · exact .inr ((dims_accepted_iff hconf hd).mp haccepted)
      · exact .inl hconf
  · intro h
    by_cases hconf : A.Conformable B transA transB
    · have hd := dgemmDims_of_conformable hconf
      have hrows := h.resolve_left (not_not.mpr hconf)
      exact multipliesAsR_of_accepted hgemm hconf hd ((dims_accepted_iff hconf hd).mpr hrows) alpha
    · exact multipliesAsR_of_not_conformable hconf alpha

end

/-- A product as it is documented, element after element. -/
def plainGemm [DecidableEq α] : CublasDgemm α := fun transA transB d alpha _ a b =>
  if d.Accepted transA transB then
    some ((List.range (d.ldc * d.n)).map fun p => alpha * ∑ l ∈ Finset.range d.k,
      opEntry transA a d.lda (p % d.ldc) l * opEntry transB b d.ldb l (p / d.ldc))
  else none

theorem plainGemm_computesProduct [DecidableEq α] :
    ComputesProduct (plainGemm : CublasDgemm α) where
  rejects transA transB d alpha beta a b h := if_neg h
  computes transA transB d alpha a b h _ _ := by
    refine ⟨_, if_pos h, by simp, fun i hi j hj => ?_⟩
    have hrow : i < d.ldc := by
      have hldc := h.2.2
      omega
    have hplace : j * d.ldc + i < d.ldc * d.n := by
      calc j * d.ldc + i < j * d.ldc + d.ldc := Nat.add_lt_add_left hrow _
        _ = (j + 1) * d.ldc := (Nat.succ_mul j d.ldc).symm
        _ ≤ d.n * d.ldc := Nat.mul_le_mul_right d.ldc hj
        _ = d.ldc * d.n := Nat.mul_comm d.n d.ldc
    have hmod : (j * d.ldc + i) % d.ldc = i := by
      rw [Nat.mul_add_mod_self_right, Nat.mod_eq_of_lt hrow]
    have hdiv : (j * d.ldc + i) / d.ldc = j := by
      rw [Nat.mul_comm, Nat.mul_add_div (by omega), Nat.div_eq_of_lt hrow, Nat.add_zero]
    rw [List.getD_eq_getElem?_getD, List.getElem?_map, List.getElem?_range hplace, Option.map_some,
      Option.getD_some, hmod, hdiv]

end

/-- A matrix without elements. -/
def emptyMatrix (nrow ncol : ℕ) (h : 0 = nrow * ncol) : NumericMatrix ℤ := ⟨nrow, ncol, [], h⟩

/-- Transposed, a `3 × 2` matrix goes together with a `3 × 4` one. -/
theorem rectangles_multiplied : MultipliesAsR plainGemm ⟨3, 2, [1, 2, 3, 4, 5, 6], rfl⟩
    ⟨3, 4, [1, 0, 2, 0, 1, 0, 3, 0, 1, 1, 1, 1], rfl⟩ true false (1 : ℤ) :=
  (multiplies_as_r_iff plainGemm_computesProduct _ _ true false 1).mpr
    (.inr ⟨by decide, by decide, by decide⟩)

/-- A product of `2 × 0` by `0 × 3` is no error in R. -/
theorem empty_product_fails : ¬ ∀ A B : NumericMatrix ℤ,
    MultipliesAsR plainGemm A B false false 1 := by
  intro h
  rcases h (emptyMatrix 2 0 rfl) (emptyMatrix 0 3 rfl) with hstops | ⟨d, C, hd, haccepted, -, -⟩
  · exact hstops.1 rfl
  · cases hd
    revert haccepted
    decide

end RCompss.Kernels
