import RCompss.Executor.PayloadRuntime
import RCompss.Library.Dataflow

/-! The master, the runtime and the executors at work on one set of payload files. The runtime
starts a task once its argument files are written for good, and what a running task sees of
them may come from any time since its start. -/
namespace RCompss.System
open RCompss.Library RCompss.Payload RCompss.Executor

/-- A task as an executor gets it: the line, and what it parses to. -/
structure TaskLine extends LaidOut where
  line : Text
  parses : parseTaskMessage line = some message

/-- What the executors run: R with its packages, and functions that depend on nothing but
their arguments. -/
structure Config (ρ : Type) where
  runtime : Runtime (Node ρ)
  packages : Packages
  env : Option Text
  functions : Functions
  uses : UsesPayloads runtime packages env
  computes : Computes runtime functions

/-- A configuration for any functions. -/
def Config.ofFunctions (packages : Packages) (env : Option Text) (functions : Functions)
    (stod : Text → Option (BitVec 64)) : Config Text where
  runtime := payloadRuntime packages env functions stod
  packages := packages
  env := env
  functions := functions
  uses := payloadRuntime_uses
  computes := payloadRuntime_computes

/-- A file of the master, with what reads back of it, or a task. -/
inductive Entry where
  | written (path : Text) (reads : Option SEXP)
  | task (t : TaskLine)

/-- The file an entry is about. -/
def Entry.path : Entry → Text
  | .written path _ => path
  | .task t => t.output

/-- A task on its executor, and the files as they were since its start. -/
structure Underway where
  executor : ℕ
  seen : List Files

structure State (ρ : Type) where
  files : Files
  executors : ℕ → Process (Node ρ)
  /-- The latest first. -/
  entries : List Entry
  /-- The files written for good. -/
  done : Set Text
  /-- The tasks underway, by the files of their results. -/
  underway : Text → Option Underway

inductive Event where
  /-- The master calls `rcompss_serialize`. -/
  | write (object : SEXP) (path method : Text)
  /-- The master submits a task. -/
  | submit (t : TaskLine)
  /-- The runtime hands a task to an executor. -/
  | start (t : TaskLine) (executor : ℕ)
  /-- Something of a result is written. -/
  | scribble (path : Text) (left : Option Bytes)
  /-- The executor is done with the line of a task, having seen these argument files. -/
  | finish (t : TaskLine) (view : Files) (sched : Scheduler)

section
variable {ρ : Type}

namespace State

def start (files : Files) (executors : ℕ → Process (Node ρ)) : State ρ :=
  ⟨files, executors, [], ∅, fun _ => none⟩

/-- Whatever is underway may see what is written. -/
def put (s : State ρ) (path : Text) (content : Option Bytes) : State ρ :=
  let files := Function.update s.files path content
  { s with
    files := files
    underway := fun m => (s.underway m).map fun u => { u with seen := files :: u.seen } }

/-- The executor's process when the line is handled on this view of the files. -/
def handled (c : Config ρ) (p : Process (Node ρ)) (t : TaskLine) (view : Files)
    (sched : Scheduler) : Process (Node ρ) :=
  (exec (handleLine c.runtime ⟨t.line, sched⟩)
    { p with session := { p.session with files := view } }).2

/-- The runtime takes a task for done at its reply of status 0. -/
def Succeeded (t : TaskLine) (q : Process (Node ρ)) : Prop :=
  q.output.getLast? = some (endTask t.message.taskId 0)

instance (t : TaskLine) (q : Process (Node ρ)) : Decidable (Succeeded t q) :=
  inferInstanceAs (Decidable (_ = _))

def step (c : Config ρ) : Event → State ρ → State ρ
  | .write object path method, s =>
      let content := (exec (rcompssSerialize c.packages c.env object path method) (s.files path)).2
      { s.put path content with
        entries := .written path (rcompssUnserialize c.packages path content).toOption :: s.entries
        done := insert path s.done }
  | .submit t, s => { s with entries := .task t :: s.entries }
  | .start t executor, s =>
      { s with underway := Function.update s.underway t.output (some ⟨executor, [s.files]⟩) }
  | .scribble path left, s => s.put path left
  | .finish t view sched, s =>
      match s.underway t.output with
      | none => s
      | some u =>
          let q := handled c (s.executors u.executor) t view sched
          let written := s.put t.output (q.session.files t.output)
          { written with
            executors := Function.update s.executors u.executor q
            done := if Succeeded t q then insert t.output s.done else s.done
            underway := Function.update written.underway t.output none }

/-- Every file is written under a name of its own; a task reads files that are there or will
be, and the runtime starts it when they are done, on an executor that is free. -/
def Allowed (c : Config ρ) (s : State ρ) : Event → Prop
  | .write _ path _ => path ∉ s.entries.map Entry.path
  | .submit t => t.output ∉ s.entries.map Entry.path ∧
      (∀ path ∈ t.inputs, path ∈ s.entries.map Entry.path) ∧
      Overwrites c.packages c.env t.output t.method
  | .start t executor => .task t ∈ s.entries ∧ (∀ path ∈ t.inputs, path ∈ s.done) ∧
      t.output ∉ s.done ∧ ∀ path u, s.underway path = some u → u.executor ≠ executor
  | .scribble path _ => (s.underway path).isSome
  | .finish t view _ => .task t ∈ s.entries ∧ ∃ u, s.underway t.output = some u ∧
      ∀ path ∈ t.inputs, ∃ files ∈ u.seen, view path = files path

end State

/-- A state of the system that starts on these files, with these executors. -/
def IsReached (c : Config ρ) (files : Files) (executors : ℕ → Process (Node ρ)) (s : State ρ) :
    Prop :=
  Reached (State.step c) (State.Allowed c) (.start files executors) s

/-- What a task makes of files that read as `σ`, as its own file gives it back. -/
def TaskLine.eval (c : Config ρ) (t : TaskLine) (σ : Text → Option SEXP) : Option SEXP :=
  (t.value c.runtime.stod c.functions σ).bind
    (transported c.packages c.env t.output t.method)

end

end RCompss.System
