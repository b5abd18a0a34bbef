import RCompss.Text

/-! `WorkerCore`: the executors a worker starts and what it reports of them. -/
namespace RCompss.Worker
open RCompss

/-- How a child process ended. -/
inductive Ending where
  | exited (status : UInt8)
  | signaled (sig : ℕ)
  deriving DecidableEq

/-- What `execl` is given. -/
structure Executor where
  path : Text
  cmd_pipe : Text
  result_pipe : Text
  executor_id : Text
  deriving DecidableEq

/-- The answers of the operating system to a worker. -/
structure Host where
  access : Text → ℤ
  /-- `fork` for the pair at a position, as the parent sees it. -/
  fork : ℕ → ℤ
  fork_result : ∀ i, fork i = -1 ∨ 0 < fork i
  /-- No two children that were not waited for have one pid. -/
  fork_fresh : ∀ i j, 0 < fork i → fork i = fork j → i = j
  /-- How the executor ends that the child starts; `none` where `execl` fails. -/
  execl : ℕ → Executor → Option Ending
  /-- `waitpid` of a child reports its status. -/
  reports : ℤ → Bool

structure WorkerCore where
  script_dir_ : Text
  pipe_pairs_ : List (Text × Text)
  executor_pids_ : List ℤ
  /-- The child processes that were not waited for, by pid. -/
  children : ℤ → Option Ending

namespace WorkerCore

/-- The constructor. -/
def new (script_dir : Text) (pipe_pairs : List (Text × Text)) : WorkerCore :=
  ⟨script_dir, pipe_pairs, [], fun _ => none⟩

def executor_path (w : WorkerCore) : Text := w.script_dir_ ++ "/rcompss_executor".toList

/-- `std::to_string(static_cast<int>(i))`. -/
def executor_id (i : ℕ) : Text :=
  let id := (i : ℤ).bmod (2 ^ 32)
  if id < 0 then '-' :: decimal id.natAbs else decimal id.natAbs

/-- The executor for a pair. -/
def executor (w : WorkerCore) (i : ℕ) (pair : Text × Text) : Executor :=
  ⟨w.executor_path, pair.1, pair.2, executor_id i⟩

end WorkerCore

namespace Host
variable (host : Host)

/-- The child: the executor, or `_exit(1)` where it does not start. -/
def child (i : ℕ) (executor : Executor) : Ending :=
  match host.execl i executor with
  | some ending => ending
  | none => .exited 1

/-- One round of the loop of `spawnExecutors`. -/
def spawnExecutor (i : ℕ) (pair : Text × Text) (w : WorkerCore) : WorkerCore :=
  let pid := host.fork i
  if 0 < pid then
    { w with
      executor_pids_ := w.executor_pids_.set i pid
      children := Function.update w.children pid (some (host.child i (w.executor i pair))) }
  else w

/-- The rounds from a position on. -/
def spawnFrom : ℕ → List (Text × Text) → WorkerCore → WorkerCore
  | _, [], w => w
  | i, pair :: pairs, w => spawnFrom (i + 1) pairs (host.spawnExecutor i pair w)

def spawnExecutors (w : WorkerCore) : WorkerCore :=
  let w := { w with executor_pids_ := List.replicate w.pipe_pairs_.length (-1) }
  if host.access w.executor_path ≠ 0 then w else host.spawnFrom 0 w.pipe_pairs_ w

/-- `waitpid`: the child's status, or `none` for -1. -/
def waitpid (pid : ℤ) (w : WorkerCore) : Option Ending × WorkerCore :=
  if host.reports pid then
    (w.children pid, { w with children := Function.update w.children pid none })
  else (none, w)

/-- One round of the loop of `waitExecutors`. -/
def waitExecutor : ℕ × WorkerCore → ℤ → ℕ × WorkerCore
  | (failures, w), pid =>
      if pid ≤ 0 then (failures, w)
      else
        match host.waitpid pid w with
        | (none, w) => (failures + 1, w)
        | (some (.exited status), w) => (if status ≠ 0 then failures + 1 else failures, w)
        | (some (.signaled _), w) => (failures + 1, w)

def waitExecutors (w : WorkerCore) : ℕ × WorkerCore :=
  w.executor_pids_.foldl host.waitExecutor (0, w)

/-- What `run` returns. -/
def run (w : WorkerCore) : ℤ :=
  let (failures, _) := host.waitExecutors (host.spawnExecutors w)
  if failures = 0 then 0 else 1

end Host

end RCompss.Worker
