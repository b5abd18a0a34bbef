import RCompss.Kernels.GpuOperations

/-! The kernels thread by thread: what each thread of a launch reads and writes, and what the
threads together leave, in whatever order they come. -/
namespace RCompss.Kernels

def threadsPerBlock : ℕ := 256

/-- `blockIdx.x` and `threadIdx.x`. -/
structure Thread where
  blockIdx : ℕ
  threadIdx : ℕ
  deriving DecidableEq

/-- Formed from 32-bit values, and widened after that. -/
def Thread.tid (t : Thread) : ℕ := (t.blockIdx * threadsPerBlock + t.threadIdx) % 2 ^ 32

/-- The threads that a launch for so many elements starts. -/
def InLaunch (aNumElements : ℕ) (t : Thread) : Prop :=
  t.blockIdx < blocksPerGrid aNumElements ∧ t.threadIdx < threadsPerBlock

/-- The elements of its inputs that a thread reads, and the one it writes. -/
structure ThreadWork (β : Type) where
  reads : List ℕ
  index : ℕ
  value : β

section
variable {α β : Type}

/-- A kernel that computes each element of its output from those at the same place in its
inputs. A thread with a number past the end does nothing. -/
def elementwise (inputs : ℕ) (value : ℕ → β) (aNumElements : ℕ) (t : Thread) :
    Option (ThreadWork β) :=
  if t.tid < aNumElements then some ⟨List.replicate inputs t.tid, t.tid, value t.tid⟩ else none

def performVectorAdd [Add α] (a b : ℕ → α) : ℕ → Thread → Option (ThreadWork α) :=
  elementwise 2 fun i => a i + b i

def performVectorMultiply [Mul α] (a b : ℕ → α) : ℕ → Thread → Option (ThreadWork α) :=
  elementwise 2 fun i => a i * b i

/-- `staticCast` is the conversion between the element types. -/
def performCopy (staticCast : α → β) (apSource : ℕ → α) : ℕ → Thread → Option (ThreadWork β) :=
  elementwise 1 fun i => staticCast (apSource i)

/-- Each element is written by exactly one thread, and no thread leaves the arrays. -/
structure Covers (aNumElements : ℕ) (perform : Thread → Option (ThreadWork β)) : Prop where
  once : ∀ i < aNumElements,
    ∃! t, InLaunch aNumElements t ∧ ∃ work, perform t = some work ∧ work.index = i
  inside : ∀ t, InLaunch aNumElements t → ∀ work, perform t = some work →
    work.index < aNumElements ∧ ∀ j ∈ work.reads, j < aNumElements

variable {inputs n i : ℕ} {value : ℕ → β} {t : Thread}

theorem elementwise_writes_iff :
    (∃ work, elementwise inputs value n t = some work ∧ work.index = i) ↔
      t.tid = i ∧ i < n := by
  unfold elementwise
  split
  next h =>
    constructor
    · intro hwork
      obtain ⟨work, hwork, hindex⟩ := hwork
      cases hwork
      exact ⟨hindex, hindex ▸ h⟩
    · intro hi
      exact ⟨_, rfl, hi.1⟩
  next h =>
    constructor
    · intro hwork
      obtain ⟨work, hwork, -⟩ := hwork
      contradiction
    · intro hi
      exact absurd (hi.1 ▸ hi.2) h

theorem elementwise_inside {work : ThreadWork β} (h : elementwise inputs value n t = some work) :
    work.index < n ∧ ∀ j ∈ work.reads, j < n := by
  unfold elementwise at h
  split at h
  next hlt =>
    cases h
    refine ⟨hlt, fun j hj => ?_⟩
    rw [List.eq_of_mem_replicate hj]
    exact hlt
  next => contradiction

/-- The number of blocks is not cut off. -/
theorem blocksPerGrid_eq (h : (n + 255) / 256 < 2 ^ 31) : blocksPerGrid n = (n + 255) / 256 := by
  unfold blocksPerGrid
  omega

/-- The thread for an element, while 32 bits can tell it. -/
theorem tid_eq_iff (h : (n + 255) / 256 < 2 ^ 31) (hn : n ≤ 2 ^ 32) (ht : InLaunch n t) :
    t.tid = i ↔ t.blockIdx * 256 + t.threadIdx = i := by
  obtain ⟨hblock, hthread⟩ := ht
  rw [blocksPerGrid_eq h] at hblock
  unfold Thread.tid threadsPerBlock at *
  omega

theorem elementwise_covers (h : (n + 255) / 256 < 2 ^ 31) (hn : n ≤ 2 ^ 32) :
    Covers n (elementwise inputs value n) where
  once i hi := by
    have hlaunched : InLaunch n ⟨i / 256, i % 256⟩ := by
      rw [InLaunch, blocksPerGrid_eq h]
      unfold threadsPerBlock
      constructor
      · change i / 256 < (n + 255) / 256
        omega
      · exact Nat.mod_lt i (by decide)
    refine ⟨⟨i / 256, i % 256⟩, ⟨hlaunched, elementwise_writes_iff.mpr ⟨?_, hi⟩⟩, ?_⟩
    · rw [tid_eq_iff h hn hlaunched]
      exact Nat.div_add_mod' i 256
    · intro t ht
      have htid := (tid_eq_iff h hn ht.1).mp (elementwise_writes_iff.mp ht.2).1
      have hthread : t.threadIdx < 256 := ht.1.2
      obtain ⟨block, thread⟩ := t
      dsimp only at htid hthread
      rw [Thread.mk.injEq]
      omega
  inside _ _ _ hwork := elementwise_inside hwork

/-- Past 32 bits no thread has the number of the last elements. -/
theorem elementwise_not_covers (hn : 2 ^ 32 < n) : ¬ Covers n (elementwise inputs value n) := by
  intro h
  obtain ⟨t, ⟨-, hwrites⟩, -⟩ := h.once (2 ^ 32) hn
  have htid : t.tid < 2 ^ 32 := Nat.mod_lt _ (by decide)
  exact absurd (elementwise_writes_iff.mp hwrites).1 (Nat.ne_of_lt htid)

/-- What is left when threads come one after another. -/
def runThreads (perform : Thread → Option (ThreadWork β)) (order : List Thread)
    (result : ℕ → β) : ℕ → β :=
  order.foldl (fun result t => match perform t with
    | some work => Function.update result work.index work.value
    | none => result) result

/-- An element is what its place makes it as soon as one of the threads has its number. -/
theorem runThreads_elementwise (order : List Thread) (result : ℕ → β) :
    runThreads (elementwise inputs value n) order result i =
      if i < n ∧ ∃ t ∈ order, t.tid = i then value i else result i := by
  induction order generalizing result with
  | nil => simp [runThreads]
  | cons t order ih =>
    rw [runThreads, List.foldl_cons]
    change runThreads _ order _ i = _
    rw [ih]
    by_cases hlater : i < n ∧ ∃ t ∈ order, t.tid = i
    · obtain ⟨hi, u, hu, htid⟩ := hlater
      rw [if_pos ⟨hi, u, hu, htid⟩, if_pos ⟨hi, u, List.mem_cons_of_mem t hu, htid⟩]
    · rw [if_neg hlater]
      by_cases hhere : i < n ∧ t.tid = i
      · rw [if_pos ⟨hhere.1, t, List.mem_cons_self, hhere.2⟩, elementwise,
          if_pos (by rw [hhere.2]; exact hhere.1)]
        simp [hhere.2]
      · have hnone : ¬ (i < n ∧ ∃ u ∈ t :: order, u.tid = i) := by
          intro hwrites
          obtain ⟨hi, u, hu, htid⟩ := hwrites
          rcases List.mem_cons.mp hu with rfl | hu
          · exact hhere ⟨hi, htid⟩
          · exact hlater ⟨hi, u, hu, htid⟩
        rw [if_neg hnone, elementwise]
        split
        next hlt =>
          apply Function.update_of_ne
          rintro rfl
          exact hhere ⟨hlt, rfl⟩
        next => rfl

/-- A launch computes the elements below `2 ^ 32` in any order of its threads, also where it
writes some of them more than once. -/
theorem launched_elementwise (h : (n + 255) / 256 < 2 ^ 31) {order : List Thread}
    (horder : ∀ t, t ∈ order ↔ InLaunch n t) (result : ℕ → β) :
    runThreads (elementwise inputs value n) order result i =
      if i < n ∧ i < 2 ^ 32 then value i else result i := by
  have hreached : i < n ∧ (∃ t ∈ order, t.tid = i) ↔ i < n ∧ i < 2 ^ 32 := by
    refine and_congr_right fun hi => ?_
    constructor
    · intro hwrites
      obtain ⟨t, -, htid⟩ := hwrites
      rw [← htid]
      exact Nat.mod_lt _ (by decide)
    · intro hsmall
      refine ⟨⟨i / 256, i % 256⟩, (horder _).mpr ?_, ?_⟩
      · rw [InLaunch, blocksPerGrid_eq h]
        constructor
        · change i / 256 < (n + 255) / 256
          omega
        · exact Nat.mod_lt i (by decide)
      · rw [Thread.tid, threadsPerBlock, Nat.div_add_mod', Nat.mod_eq_of_lt hsmall]
  rw [runThreads_elementwise]
  simp only [hreached]

end

/-- Each of the kernels covers its array exactly up to `2 ^ 32` elements. -/
theorem kernels_cover_iff {α β : Type} [Add α] [Mul α] (a b : ℕ → α) (staticCast : α → β)
    {n : ℕ} (hblocks : (n + 255) / 256 ≤ 2 ^ 31 - 1) :
    (Covers n (performVectorAdd a b n) ↔ n ≤ 2 ^ 32) ∧
      (Covers n (performVectorMultiply a b n) ↔ n ≤ 2 ^ 32) ∧
      (Covers n (performCopy staticCast a n) ↔ n ≤ 2 ^ 32) := by
  have hfits : (n + 255) / 256 < 2 ^ 31 := by omega
  have hcovers {γ : Type} (inputs : ℕ) (value : ℕ → γ) :
      Covers n (elementwise inputs value n) ↔ n ≤ 2 ^ 32 := by
    constructor
    · intro h
      by_contra hlarge
      exact elementwise_not_covers (by omega) h
    · exact elementwise_covers hfits
  exact ⟨hcovers _ _, hcovers _ _, hcovers _ _⟩

/-- Four blocks cover a thousand elements. -/
theorem thousand_elements_covered :
    Covers 1000 (performVectorAdd (fun i => (i : ℤ)) (fun i => (i : ℤ)) 1000) ∧
      Covers 1000 (performVectorMultiply (fun i => (i : ℤ)) (fun i => (i : ℤ)) 1000) ∧
        Covers 1000 (performCopy (fun x : ℤ => x) (fun i => (i : ℤ)) 1000) := by
  obtain ⟨hadd, hmultiply, hcopy⟩ := kernels_cover_iff (fun i => (i : ℤ)) (fun i => (i : ℤ))
    (fun x : ℤ => x) (show (1000 + 255) / 256 ≤ 2 ^ 31 - 1 by decide)
  exact ⟨hadd.mpr (by decide), hmultiply.mpr (by decide), hcopy.mpr (by decide)⟩

/-- One element more than 32 bits can tell is not written. -/
theorem large_launch_not_covered : ¬ ∀ n : ℕ, 1 ≤ n → (n + 255) / 256 ≤ 2 ^ 31 - 1 →
    Covers n (performVectorAdd (fun i => (i : ℤ)) (fun i => (i : ℤ)) n) := by
  intro h
  have hcovers := h (2 ^ 32 + 1) (by decide) (by decide)
  exact elementwise_not_covers (Nat.lt_succ_self _) hcovers

end RCompss.Kernels
