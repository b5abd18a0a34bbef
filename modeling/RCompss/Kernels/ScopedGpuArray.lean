import RCompss.Kernels.BufferUse
import RCompss.Kernels.DirectCalls
import RCompss.Library.Scoped

/-! `ScopedGpuArray`: device memory that a destructor frees, whatever ends its scope. -/
namespace RCompss.Kernels
open RCompss.Library

/-- What leaves a function with such arrays. -/
inductive LinalgError where
  /-- A C++ exception with its text. -/
  | exception (what : String)
  /-- An R error, which jumps over handlers and destructors. -/
  | rError (message : String)
  /-- `std::terminate`, for an exception out of a destructor. -/
  | terminated
  deriving DecidableEq

namespace LinalgError

def passes : LinalgError → Bool
  | exception _ => false
  | rError _ => true
  | terminated => true

def ofBinding : BindingError → LinalgError
  | .exception what => exception what
  | .rError message => rError message

/-- What the handler around a whole function makes of it. -/
def labelled (label : String) : LinalgError → LinalgError
  | exception what => exception (label ++ what)
  | rError message => rError message
  | terminated => terminated

@[simp] theorem passes_labelled (label : String) (e : LinalgError) :
    (e.labelled label).passes = e.passes := by
  cases e <;> rfl

end LinalgError

abbrev LinalgM := Exec Member LinalgError

def unwinding : Unwinding LinalgError := ⟨LinalgError.passes, .terminated, rfl⟩

/-- `Rcpp::stop` for an answer. -/
def stopLinalg {α : Type} (message : String) : LinalgM α := throw (.exception message)

/-- What the other bindings do too. -/
def likeBinding {α : Type} (x : BindingM α) : LinalgM α := do
  let m ← get
  let (r, t) := exec x m
  set t
  match r with
  | .ok a => return a
  | .error e => throw (.ofBinding e)

/-- A call on the operation context. -/
def onOperationContext {α : Type} (x : MemberM α) : LinalgM α := likeBinding (inBinding x)

structure ScopedGpuArray where
  ptr : Option ℕ
  nbytes : ℕ

namespace ScopedGpuArray

def construct (nbytes : ℕ) : LinalgM ScopedGpuArray := do
  let ptr ← (if 0 < nbytes then onOperationContext (MemoryHandler.allocateArray nbytes .GPU)
    else return none)
  return ⟨ptr, nbytes⟩

/-- The destructor. -/
def reset (array : ScopedGpuArray) : LinalgM Unit :=
  onlyIf (array.ptr ≠ none) do
    let _ ← onOperationContext (MemoryHandler.destroyArray array.ptr .GPU)

def ok (array : ScopedGpuArray) : Bool := array.nbytes = 0 || array.ptr.isSome

/-- Its memory is there. -/
def Holds (cuda : Cuda) (nbytes : ℕ) (array : ScopedGpuArray) : Prop :=
  array.nbytes = nbytes ∧ (0 < nbytes → cuda.size? .deviceBuffer array.ptr = some nbytes)

end ScopedGpuArray

section
variable {α : Type} {m : Member} {Q : α → Member → Prop} {E : LinalgError → Member → Prop}

theorem meets_likeBinding {x : BindingM α} :
    Meets (likeBinding x) m Q E ↔ Meets x m Q fun e t => E (.ofBinding e) t := by
  rw [likeBinding, meets_bind, meets_get]
  unfold Meets
  rcases exec x m with ⟨e | a, t⟩ <;> rfl

theorem meets_onOperationContext {x : MemberM α} : Meets (onOperationContext x) m Q E ↔
    Meets x m (fun a t => Q a t.tick) fun e t => E (.exception e.what) t.tick := by
  rw [onOperationContext, meets_likeBinding, inBinding, meets_bind, meets_get]
  unfold Meets
  rcases exec x m with ⟨e | a, t⟩ <;> rfl

end

section
variable {cuda cuda' : Cuda}

theorem SameBuffers.fresh (h : SameBuffers cuda cuda') (hm : cuda.Fresh) : cuda'.Fresh := by
  intro id hid
  rw [h.next] at hid
  rw [h.live, hm id hid]

theorem SameBuffers.size? (h : SameBuffers cuda cuda') (part : Part) (p : Option ℕ) :
    cuda'.size? part p = cuda.size? part p := by
  simp only [Cuda.size?, h.live]

end

/-- What becomes of the device memory: what was there is there, and what is there besides is a
work space of a routine, and none of the arrays allocated before it. -/
structure LeavesBehind (workSpace : Option ℕ) (arrays : List ℕ) (cuda cuda' : Cuda) : Prop where
  fresh : cuda'.Fresh
  next : cuda.next ≤ cuda'.next
  misuses : .deviceBuffer ∉ cuda.misuses → .deviceBuffer ∉ cuda'.misuses
  live : ∀ id, cuda'.live id = cuda.live id ∨
    cuda.next + (arrays.filter fun n => 0 < n).length ≤ id ∧
      ∃ n ∈ workSpace, cuda'.live id = some ⟨.deviceBuffer, n⟩

namespace LeavesBehind
variable {workSpace : Option ℕ} {arrays : List ℕ} {cuda cuda' cuda'' : Cuda} {n : ℕ}

theorem of_same (hm : cuda.Fresh) (h : SameBuffers cuda cuda') :
    LeavesBehind workSpace arrays cuda cuda' where
  fresh := h.fresh hm
  next := h.next.ge
  misuses := h.misuses
  live id := .inl (congrFun h.live id)

/-- What follows leaves the device memory alone. -/
theorem same (h : LeavesBehind workSpace arrays cuda cuda') (h' : SameBuffers cuda' cuda'') :
    LeavesBehind workSpace arrays cuda cuda'' where
  fresh := h'.fresh h.fresh
  next := h.next.trans h'.next.ge
  misuses hm := h'.misuses (h.misuses hm)
  live id := by
    rw [h'.live]
    exact h.live id

/-- One after the other, where the first leaves no more than the second. -/
theorem trans (h : LeavesBehind workSpace [] cuda cuda')
    (h' : LeavesBehind workSpace [] cuda' cuda'') : LeavesBehind workSpace [] cuda cuda'' where
  fresh := h'.fresh
  next := h.next.trans h'.next
  misuses hm := h'.misuses (h.misuses hm)
  live id := by
    rcases h'.live id with hsame | ⟨hid, hwork⟩
    · rw [hsame]
      exact h.live id
    · exact .inr ⟨h.next.trans hid, hwork⟩

/-- What came before left the device memory alone. -/
theorem after (h : SameBuffers cuda cuda') (h' : LeavesBehind workSpace arrays cuda' cuda'') :
    LeavesBehind workSpace arrays cuda cuda'' where
  fresh := h'.fresh
  next := h.next.ge.trans h'.next
  misuses hm := h'.misuses (h.misuses hm)
  live id := by
    have hlive := h'.live id
    rw [h.live, h.next] at hlive
    exact hlive

/-- What was there is there. -/
theorem size? (h : LeavesBehind workSpace arrays cuda cuda') (hm : cuda.Fresh) {p : Option ℕ}
    (hp : cuda.size? .deviceBuffer p = some n) : cuda'.size? .deviceBuffer p = some n := by
  obtain ⟨id, rfl, hlive⟩ := (cuda.size?_eq_some _ _).mp hp
  apply (cuda'.size?_eq_some _ _).mpr ⟨id, rfl, _⟩
  rcases h.live id with hsame | ⟨hid, -⟩
  · rw [hsame, hlive]
  · rw [hm id (by omega)] at hlive
    contradiction

/-- An array of no bytes is none. -/
theorem none (h : LeavesBehind workSpace arrays cuda cuda') :
    LeavesBehind workSpace (0 :: arrays) cuda cuda' :=
  ⟨h.fresh, h.next, h.misuses, h.live⟩

/-- The last allocated array is freed. -/
theorem freed (hm : cuda.Fresh) (hn : 0 < n)
    (h : LeavesBehind workSpace arrays (cuda.alloc .deviceBuffer n) cuda') :
    LeavesBehind workSpace (n :: arrays) cuda (cuda'.kill .deviceBuffer (some cuda.next)) where
  fresh := h.fresh.kill _ _
  next := by
    rw [Cuda.next_kill]
    exact (Nat.le_succ cuda.next).trans h.next
  misuses hmis := by
    rw [Cuda.misuses_kill]
    exact h.misuses hmis
  live id := by
    have hown : cuda'.live cuda.next = some ⟨.deviceBuffer, n⟩ := by
      have hsize := h.size? (hm.alloc _ _) (cuda.size?_alloc_self .deviceBuffer n)
      obtain ⟨_, hid, hlive⟩ := (cuda'.size?_eq_some _ _).mp hsize
      cases hid
      exact hlive
    by_cases hid : id = cuda.next
    · left
      rw [hid, Cuda.live_kill_self hown, hm cuda.next le_rfl]
    · rw [Cuda.live_kill_of_ne hid]
      have hother : (cuda.alloc .deviceBuffer n).live id = cuda.live id :=
        Function.update_of_ne hid ..
      have hnext : (cuda.alloc .deviceBuffer n).next = cuda.next + 1 := rfl
      have hlive := h.live id
      rw [hother, hnext] at hlive
      simp only [List.filter_cons, hn, decide_true, if_true, List.length_cons]
      rcases hlive with hsame | ⟨hle, hwork⟩
      · exact .inl hsame
      · exact .inr ⟨by omega, hwork⟩

end LeavesBehind

namespace ScopedGpuArray

/-- Nothing but a new array. -/
def New (nbytes : ℕ) (array : ScopedGpuArray) (s t : Member) : Prop :=
  array.nbytes = nbytes ∧ (nbytes = 0 ∧ array.ptr = none ∧ SameBuffers s.cuda t.cuda ∨
    0 < nbytes ∧ array.ptr = some s.cuda.next ∧
      SameBuffers (s.cuda.alloc .deviceBuffer nbytes) t.cuda)

theorem construct_meets (workSpace : Option ℕ) (nbytes : ℕ) (arrays : List ℕ) {s : Member}
    (hs : s.cuda.Fresh) : Meets (construct nbytes) s
      (fun array t => t.cuda.Fresh ∧ New nbytes array s t)
      fun _ t => LeavesBehind workSpace (nbytes :: arrays) s.cuda t.cuda := by
  have hsame : SameBuffers s.cuda s.tick.cuda := .tick s.cuda
  unfold construct
  rw [meets_bind]
  split
  next hn =>
    rw [meets_onOperationContext]
    unfold MemoryHandler.allocateArray
    rw [if_neg (by omega), newMemory, meets_bind, meets_get, meets_bind, meets_errorCheck,
      meets_acquire]
    split
    next => exact .of_same hs hsame
    next => exact ⟨hs.alloc _ _, rfl, .inr ⟨hn, rfl, .tick _⟩⟩
  next hn => exact ⟨hs, rfl, .inl ⟨by omega, rfl, .refl _⟩⟩

theorem reset_meets {workSpace : Option ℕ} {nbytes : ℕ} {arrays : List ℕ}
    {array : ScopedGpuArray} {s t v : Member} (hs : s.cuda.Fresh) (hnew : New nbytes array s t)
    (h : LeavesBehind workSpace arrays t.cuda v.cuda) : Meets array.reset v
      (fun _ w => LeavesBehind workSpace (nbytes :: arrays) s.cuda w.cuda) fun _ _ => True := by
  obtain ⟨-, ⟨rfl, hptr, hsame⟩ | ⟨hn, hptr, hsame⟩⟩ := hnew
  · rw [reset, meets_onlyIf, if_neg (not_not.mpr hptr)]
    exact (LeavesBehind.after hsame h).none
  · have hleft := LeavesBehind.after hsame h
    have hown := hleft.size? (hs.alloc _ _) (s.cuda.size?_alloc_self .deviceBuffer nbytes)
    have hhas : v.cuda.has .deviceBuffer (some s.cuda.next) = true := by
      rw [Cuda.has, hown]
      rfl
    have hptr' : some s.cuda.next ≠ none := Option.some_ne_none _
    rw [reset, hptr, meets_onlyIf, if_pos hptr', meets_bind, meets_onOperationContext,
      MemoryHandler.destroyArray, meets_bind, meets_onlyIf, if_pos hptr', meets_errorCheck,
      meets_cudaFree (.inr hhas)]
    split
    next => trivial
    next => exact (LeavesBehind.freed hs hn hleft).same (.tick _)

/-- An array and the scope that holds it. -/
theorem scopeRule (workSpace : Option ℕ) : ScopeRule unwinding construct reset
    (fun s => s.cuda.Fresh) New
    fun arrays s t => LeavesBehind workSpace arrays s.cuda t.cuda where
  acquires nbytes arrays _ hs :=
    (construct_meets workSpace nbytes arrays hs).mono (fun _ _ ht => ht) fun _ _ ht _ => ht
  releases _ _ _ _ _ _ hs hnew h := reset_meets hs hnew h

theorem New.step {nbytes : ℕ} {array : ScopedGpuArray} {s t : Member}
    (h : New nbytes array s t) (hs : s.cuda.Fresh) :
    t.cuda.Fresh ∧ array.Holds t.cuda nbytes ∧
      ∀ p n, s.cuda.size? .deviceBuffer p = some n → t.cuda.size? .deviceBuffer p = some n := by
  obtain ⟨hsize, ⟨rfl, -, hsame⟩ | ⟨hn, hptr, hsame⟩⟩ := h
  · refine ⟨hsame.fresh hs, ⟨hsize, fun h => absurd h (lt_irrefl 0)⟩, fun p n hp => ?_⟩
    rw [hsame.size?, hp]
  · refine ⟨hsame.fresh (hs.alloc _ _), ⟨hsize, fun _ => ?_⟩, fun p n hp => ?_⟩
    · rw [hsame.size?, hptr, Cuda.size?_alloc_self]
    · rw [hsame.size?, hs.size?_alloc hp]

theorem Holds.mono {cuda cuda' : Cuda} {nbytes : ℕ} {array : ScopedGpuArray}
    (h : array.Holds cuda nbytes) (hkeep : ∀ p n, cuda.size? .deviceBuffer p = some n →
      cuda'.size? .deviceBuffer p = some n) : array.Holds cuda' nbytes :=
  ⟨h.1, fun hn => hkeep _ _ (h.2 hn)⟩

/-- In their scope all arrays are there. -/
theorem holds_of_acquired {sizes : List ℕ} {arrays : List ScopedGpuArray} {s t : Member}
    (h : AcquiredInTurn New sizes arrays s t) (hs : s.cuda.Fresh) :
    List.Forall₂ (fun nbytes array => Holds t.cuda nbytes array) sizes arrays ∧
      ∀ p n, s.cuda.size? .deviceBuffer p = some n → t.cuda.size? .deviceBuffer p = some n := by
  induction h with
  | nil => exact ⟨.nil, fun _ _ h => h⟩
  | cons head _ ih =>
    obtain ⟨ht, hholds, hkeep⟩ := head.step hs
    obtain ⟨hrest, hkeep'⟩ := ih ht
    exact ⟨.cons (hholds.mono hkeep') hrest, fun p n hp => hkeep' p n (hkeep p n hp)⟩

end ScopedGpuArray

end RCompss.Kernels
