import RCompss.Executor.Process
import Mathlib.Data.Finset.Basic

/-! Binding a task to CPUs and GPUs. -/
namespace RCompss.Executor
open RCompss.Library

/-- The field of a task that binds nothing. -/
def noAffinity : Text := "-".toList

/-- What `sched_setaffinity` does with a set: the mask the process gets, or `none`. -/
abbrev Scheduler := Finset ℕ → Option (Finset ℕ)

/-- `CPU_SET` of each id; ids outside the set are ignored. -/
def cpuSet (cpuList : List ℤ) : Finset ℕ :=
  ((cpuList.filter fun id => 0 ≤ id ∧ id < 1024).map Int.toNat).toFinset

section
variable {ρ : Type}

/-- Bind to a comma-separated list of CPUs; true when the system did it. -/
def bindCpus (sched : Scheduler) (cpus : Text) : ProcessM ρ Bool := do
  if cpus = noAffinity ∨ cpus = [] then
    return false
  -- bind_cpus_event
  emit 9000100 1
  match (getlines ',' cpus).mapM stoi with
  | none => return false
  | some cpuList =>
      if cpuList = [] then
        return false
      match sched (cpuSet cpuList) with
      | none =>
          emit 9000100 0
          return false
      | some mask =>
          modify fun p => { p with affinity := { p.affinity with
            COMPSS_BINDED_CPUS := some cpus
            COMPSS_NUM_CPUS := some (decimal cpuList.length)
            mask := mask } }
          emit 9000100 0
          return true

/-- The GPU slots of the affinity event, lowest first: the first slots for a list of
several, the slot of its id for a single one. -/
def gpuMaskList (gpus : Text) : List ℕ :=
  if ',' ∈ gpus then
    (List.range 4).map fun i => if i < (getlines ',' gpus).length then 1 else 0
  else
    match stoi gpus with
    | some id => (List.range 4).map fun i => if (i : ℤ) = id then 1 else 0
    | none => List.replicate 4 0

/-- The reversed slots, read as a binary numeral. -/
def assignedGpus (gpus : Text) : ℕ :=
  Nat.ofDigitChars 2 ((gpuMaskList gpus).reverse.flatMap decimal) 0

def bindGpus (gpus : Text) : ProcessM ρ Unit := do
  if gpus = noAffinity ∨ gpus = [] then
    return
  -- bind_gpus_event
  emit 9000100 2
  emit 9000160 (assignedGpus gpus)
  modify fun p => { p with affinity := { p.affinity with
    COMPSS_BINDED_GPUS := some gpus
    CUDA_VISIBLE_DEVICES := some gpus
    GPU_DEVICE_ORDINAL := some gpus } }
  emit 9000100 0

/-- Both bindings, each only when the task asks for it. -/
def bindTask (sched : Scheduler) (message : TaskMessage) : ProcessM ρ (Bool × Bool) := do
  let bindedCpus ← (if message.cpus ≠ noAffinity ∧ message.cpus ≠ [] then
    bindCpus sched message.cpus else pure false)
  let bindedGpus ← (if message.gpus ≠ noAffinity ∧ message.gpus ≠ [] then
    (do bindGpus message.gpus; return true) else pure false)
  return (bindedCpus, bindedGpus)

end

/-- The count and mask of a CPU binding that succeeds. -/
def cpuBinding (sched : Scheduler) (cpus : Text) : Option (ℕ × Finset ℕ) := do
  if cpus = noAffinity ∨ cpus = [] then none
  let cpuList ← (getlines ',' cpus).mapM stoi
  if cpuList = [] then none
  let mask ← sched (cpuSet cpuList)
  return (cpuList.length, mask)

/-- Does a GPU field ask for a binding? -/
def asksGpus (gpus : Text) : Bool := gpus ≠ noAffinity ∧ gpus ≠ []

namespace Affinity

def withCpus (a : Affinity) (sched : Scheduler) (cpus : Text) : Affinity :=
  match cpuBinding sched cpus with
  | none => a
  | some (count, mask) => { a with
      COMPSS_BINDED_CPUS := some cpus
      COMPSS_NUM_CPUS := some (decimal count)
      mask := mask }

def withGpus (a : Affinity) (gpus : Text) : Affinity :=
  if asksGpus gpus then { a with
    COMPSS_BINDED_GPUS := some gpus
    CUDA_VISIBLE_DEVICES := some gpus
    GPU_DEVICE_ORDINAL := some gpus }
  else a

theorem withCpus_of_none {a : Affinity} {sched : Scheduler} {cpus : Text}
    (h : cpuBinding sched cpus = none) : a.withCpus sched cpus = a := by
  rw [withCpus, h]

theorem withGpus_of_not {a : Affinity} {gpus : Text} (h : asksGpus gpus = false) :
    a.withGpus gpus = a := by
  rw [withGpus, h]
  rfl

end Affinity

theorem cpuBinding_of_unasked (sched : Scheduler) {cpus : Text}
    (h : ¬ (cpus ≠ noAffinity ∧ cpus ≠ [])) : cpuBinding sched cpus = none := by
  have h' : cpus = noAffinity ∨ cpus = [] := by tauto
  simp [cpuBinding, h']

section
variable {ρ : Type}

/-- Binding CPUs returns, and only sets the affinity. -/
theorem exec_bindCpus (sched : Scheduler) (cpus : Text) (p : Process ρ) :
    ∃ events, exec (bindCpus sched cpus) p = (.ok (cpuBinding sched cpus).isSome,
      { p with affinity := p.affinity.withCpus sched cpus, events := events }) := by
  unfold bindCpus Affinity.withCpus cpuBinding
  by_cases h : cpus = noAffinity ∨ cpus = []
  · simp [h]
    exact ⟨_, rfl⟩
  · rcases hlist : (getlines ',' cpus).mapM stoi with _ | cpuList
    · simp [h, emit]
    · by_cases hnil : cpuList = []
      · simp [h, emit, hnil]
      · rcases hset : sched (cpuSet cpuList) with _ | mask <;>
          simp [h, emit, exec_bind, hnil, hset]

theorem exec_bindGpus (gpus : Text) (p : Process ρ) :
    ∃ events, exec (bindGpus gpus) p = (.ok (),
      { p with affinity := p.affinity.withGpus gpus, events := events }) := by
  unfold bindGpus Affinity.withGpus asksGpus
  by_cases h : gpus = noAffinity ∨ gpus = []
  · have h' : ¬ (gpus ≠ noAffinity ∧ gpus ≠ []) := not_and_or.mpr (by simpa using h)
    simp [h, h']
    exact ⟨_, rfl⟩
  · have h' : gpus ≠ noAffinity ∧ gpus ≠ [] := not_or.mp h
    simp [h', emit, exec_bind]

/-- A task's bindings return, and set the affinity from its two fields. -/
theorem exec_bindTask (sched : Scheduler) (message : TaskMessage) (p : Process ρ) :
    ∃ events, exec (bindTask sched message) p =
      (.ok ((cpuBinding sched message.cpus).isSome, asksGpus message.gpus),
        { p with
          affinity := (p.affinity.withCpus sched message.cpus).withGpus message.gpus
          events := events }) := by
  unfold bindTask
  by_cases hc : message.cpus ≠ noAffinity ∧ message.cpus ≠ [] <;>
    by_cases hg : message.gpus ≠ noAffinity ∧ message.gpus ≠ []
  · obtain ⟨ec, hcpu⟩ := exec_bindCpus sched message.cpus p
    obtain ⟨eg, hgpu⟩ := exec_bindGpus message.gpus
      { p with affinity := p.affinity.withCpus sched message.cpus, events := ec }
    exact ⟨eg, by simp [hc, hg, exec_bind, hcpu, hgpu, asksGpus]⟩
  · obtain ⟨ec, hcpu⟩ := exec_bindCpus sched message.cpus p
    have hgpu : asksGpus message.gpus = false := decide_eq_false hg
    exact ⟨ec, by simp [hc, hg, hcpu, hgpu, Affinity.withGpus_of_not hgpu]⟩
  · obtain ⟨eg, hgpu⟩ := exec_bindGpus message.gpus p
    have hcpu := cpuBinding_of_unasked sched hc
    exact ⟨eg, by simp [hc, hg, hgpu, hcpu, Affinity.withCpus_of_none hcpu, asksGpus]⟩
  · have hcpu := cpuBinding_of_unasked sched hc
    have hgpu : asksGpus message.gpus = false := decide_eq_false hg
    exact ⟨p.events, by
      simp [hc, hg, hcpu, hgpu, Affinity.withCpus_of_none hcpu, Affinity.withGpus_of_not hgpu]⟩

end

end RCompss.Executor
