import RCompss.Executor.Run

/-! What of the affinity one task leaves for the next. -/
namespace RCompss.Executor
open RCompss.Library

namespace Affinity

/-- The fields a CPU binding sets. -/
def cpuPart (a : Affinity) : Option Text × Option Text × Finset ℕ :=
  (a.COMPSS_BINDED_CPUS, a.COMPSS_NUM_CPUS, a.mask)

/-- The fields a GPU binding sets. -/
def gpuPart (a : Affinity) : Option Text × Option Text × Option Text :=
  (a.COMPSS_BINDED_GPUS, a.CUDA_VISIBLE_DEVICES, a.GPU_DEVICE_ORDINAL)

theorem ext_parts {a b : Affinity} : a = b ↔ a.cpuPart = b.cpuPart ∧ a.gpuPart = b.gpuPart := by
  constructor
  · rintro rfl
    exact ⟨rfl, rfl⟩
  · rintro ⟨hcpu, hgpu⟩
    cases a
    cases b
    simp_all [cpuPart, gpuPart]

end Affinity

/-- What a task's CPU binding sets, when it succeeds. -/
def cpuSetting (t : Scheduler × TaskMessage) : Option (Option Text × Option Text × Finset ℕ) :=
  (cpuBinding t.1 t.2.cpus).map fun b => (some t.2.cpus, some (decimal b.1), b.2)

/-- What a task's GPU binding sets, when the task asks for one. -/
def gpuSetting (t : Scheduler × TaskMessage) : Option (Option Text × Option Text × Option Text) :=
  if asksGpus t.2.gpus then some (some t.2.gpus, some t.2.gpus, some t.2.gpus) else none

theorem cpuPart_boundAffinity (t : Scheduler × TaskMessage) (a : Affinity) :
    (boundAffinity t.1 t.2 a).cpuPart = (cpuSetting t).getD a.cpuPart := by
  unfold boundAffinity Affinity.withGpus Affinity.withCpus cpuSetting
  rcases cpuBinding t.1 t.2.cpus with _ | ⟨count, mask⟩ <;> split <;> rfl

theorem gpuPart_boundAffinity (t : Scheduler × TaskMessage) (a : Affinity) :
    (boundAffinity t.1 t.2 a).gpuPart = (gpuSetting t).getD a.gpuPart := by
  unfold boundAffinity Affinity.withGpus Affinity.withCpus gpuSetting
  rcases cpuBinding t.1 t.2.cpus with _ | ⟨count, mask⟩ <;> split <;> rfl

/-- The last setting made in a sequence of tasks. -/
def lastSetting {β : Type} (setting : Scheduler × TaskMessage → Option β)
    (ts : List (Scheduler × TaskMessage)) : Option β :=
  ts.reverse.findSome? setting

/-- A part of the affinity that each task sets or leaves alone stays as it was last set. -/
theorem foldl_part {β : Type} {part : Affinity → β} {setting : Scheduler × TaskMessage → Option β}
    (hstep : ∀ t a, part (boundAffinity t.1 t.2 a) = (setting t).getD (part a))
    (ts : List (Scheduler × TaskMessage)) (a : Affinity) :
    part (ts.foldl (fun a t => boundAffinity t.1 t.2 a) a) =
      (lastSetting setting ts).getD (part a) := by
  induction ts using List.reverseRecOn with
  | nil => rfl
  | append_singleton ts t ih =>
    rw [List.foldl_append, List.foldl_cons, List.foldl_nil, hstep, ih]
    unfold lastSetting
    rw [List.reverse_append, List.reverse_singleton, List.singleton_append, List.findSome?_cons]
    rcases setting t with _ | b <;> rfl

/-- The next task sets the part itself, or nothing before it changed the part. -/
def PartKept {β : Type} (setting : Scheduler × TaskMessage → Option β)
    (ts : List (Scheduler × TaskMessage)) (next : Scheduler × TaskMessage) (initial : β) : Prop :=
  (setting next).isSome = true ∨ ∀ b ∈ lastSetting setting ts, b = initial

theorem part_kept_iff {β : Type} {part : Affinity → β}
    {setting : Scheduler × TaskMessage → Option β}
    (hstep : ∀ t a, part (boundAffinity t.1 t.2 a) = (setting t).getD (part a))
    (ts : List (Scheduler × TaskMessage)) (next : Scheduler × TaskMessage) (a : Affinity) :
    part (boundAffinity next.1 next.2 (ts.foldl (fun a t => boundAffinity t.1 t.2 a) a)) =
        part (boundAffinity next.1 next.2 a) ↔ PartKept setting ts next (part a) := by
  rw [hstep, hstep, foldl_part hstep, PartKept]
  rcases setting next with _ | b <;> rcases lastSetting setting ts with _ | c <;> simp

variable {ρ : Type}

/-- After any lines the next task runs under the affinity it would find on a fresh
executor exactly when it rebinds, or finds unchanged, the CPU and the GPU part; and its
function sees no other affinity than that. -/
theorem affinity_isolated_iff (rt : Runtime ρ) (history : List Delivery) (sched : Scheduler)
    (message : TaskMessage) (fresh : Process ρ) :
    let used := (exec (runLoop rt history) fresh).2
    let later := (exec (executeTask rt sched message) used).2
    let first := (exec (executeTask rt sched message) fresh).2
    (later.affinity = first.affinity ↔
        PartKept cpuSetting (tasksOf history) (sched, message) fresh.affinity.cpuPart ∧
          PartKept gpuSetting (tasksOf history) (sched, message) fresh.affinity.gpuPart) ∧
      (later.calls = used.calls ∨ later.calls = used.calls ++ [(message.func, later.affinity)]) ∧
      (first.calls = fresh.calls ∨
        first.calls = fresh.calls ++ [(message.func, first.affinity)]) := by
  intro used later first
  obtain ⟨q, _, hrun, -, -, haff⟩ := exec_runLoop rt history fresh
  obtain ⟨_, q₁, hlater, hex₁⟩ := exec_executeTask rt sched message used
  obtain ⟨_, q₀, hfirst, hex₀⟩ := exec_executeTask rt sched message fresh
  have hused : used.affinity = q.affinity := by simp only [used, hrun]
  have hlater' : later = q₁ := by simp only [later, hlater]
  have hfirst' : first = q₀ := by simp only [first, hfirst]
  rw [hlater', hfirst']
  refine ⟨?_, ?_, ?_⟩
  · rw [hex₁.affinity, hex₀.affinity, hused, haff, Affinity.ext_parts]
    exact and_congr (part_kept_iff cpuPart_boundAffinity _ (sched, message) _)
      (part_kept_iff gpuPart_boundAffinity _ (sched, message) _)
  · rw [hex₁.affinity]
    exact hex₁.calls
  · rw [hex₀.affinity]
    exact hex₀.calls

/-- A line that binds its task to two CPUs and a GPU, and that task. -/
def boundLine : Text :=
  List.intercalate [' '] (["EXECUTE_TASK", "1", "sandbox", "job.out", "job.err", "false", "-",
    "false", "-", "-", "square.R", "square", "-", "0", "0,1", "0", "-"].map String.toList)

def boundTask : TaskMessage where
  taskId := "1".toList
  sandbox := "sandbox".toList
  jobOut := "job.out".toList
  jobErr := "job.err".toList
  tracing := "false".toList
  debug := "false".toList
  moduleFile := "square.R".toList
  func := "square".toList
  params := ["0".toList]
  cpus := "0,1".toList
  gpus := "0".toList

theorem tasksOf_boundLine : tasksOf [⟨boundLine, some⟩] = [(some, boundTask)] := by
  have hparse : parseTaskMessage boundLine = some boundTask := by
    unfold parseTaskMessage boundLine
    rw [splitWhitespace_join (by decide)]
    rfl
  have hquit : boundLine ≠ quitLine := by decide
  simp [tasksOf, hquit, hparse]

/-- Where all goes well, the nullary task is called under the affinity bound for it. -/
theorem calls_nullaryTask (p : Process Unit) :
    (exec (executeTask fullDisk some nullaryTask) p).2.calls =
      p.calls ++ [(nullaryTask.func, p.affinity)] := by
  obtain ⟨success, q, hrun, hex⟩ := exec_executeTask fullDisk some nullaryTask p
  obtain ⟨q', hrun', -⟩ := executeTask_of_succeeds (p := p)
    (nullaryTask_succeeds (boundAffinity some nullaryTask p.affinity))
  cases hrun.symm.trans hrun'
  rw [hrun]
  exact hex.called rfl

/-- A task that asks for no binding sees the CPUs and the GPU of the one before it. -/
theorem binding_outlives_task :
    let fresh : Process Unit := ⟨(), ⟨none, none, none, none, none, {0, 1, 2, 3}⟩, [], [], []⟩
    let used := (exec (runLoop fullDisk [⟨boundLine, some⟩]) fresh).2
    let later := (exec (executeTask fullDisk some nullaryTask) used).2
    let first := (exec (executeTask fullDisk some nullaryTask) fresh).2
    first.calls = fresh.calls ++ [("square".toList,
        ⟨none, none, none, none, none, {0, 1, 2, 3}⟩)] ∧
      later.calls = used.calls ++ [("square".toList, ⟨some "0,1".toList, some "2".toList,
        some "0".toList, some "0".toList, some "0".toList, {0, 1}⟩)] := by
  intro fresh used later first
  obtain ⟨q, _, hrun, -, -, haff⟩ := exec_runLoop fullDisk [⟨boundLine, some⟩] fresh
  have hused : used.affinity = ⟨some "0,1".toList, some "2".toList, some "0".toList,
      some "0".toList, some "0".toList, {0, 1}⟩ := by
    simp only [used, hrun, haff, tasksOf_boundLine]
    decide
  refine ⟨calls_nullaryTask fresh, ?_⟩
  rw [← hused]
  exact calls_nullaryTask used

end RCompss.Executor
