import RCompss.Executor.Arguments
import RCompss.Executor.Binding

/-! Executing one task. The log files and streams, which no control flow depends on, are
left out. -/
namespace RCompss.Executor
open RCompss.Library

variable {ρ : Type}

/-- The reply for a task. -/
def endTask (taskId : Text) (status : ℕ) : Text :=
  "END_TASK ".toList ++ taskId ++ ' ' :: decimal status

/-- Call the task's function; without arguments it is called directly. -/
def callFunction (rt : Runtime ρ) (func : Text) (args : List (Text × ArgValue)) :
    Affinity → SessionM ρ SEXP :=
  if args = [] then rt.callClosure func else rt.doCall func args

/-- The name and path tokens of the return record: method and file of the result. -/
def returnFile (params : List Text) (returnIndex : ℤ) : SessionM ρ (Text × Text) := do
  let name ← getParam params (returnIndex + 3)
  let value ← getParam params (returnIndex + 5)
  return (name.takeWhile (· ≠ '-'), stripValueSuffix value)

/-- Serialize the result; that the file exists afterwards is checked only for the log. -/
def sendReturnValue (rt : Runtime ρ) (params : List Text) (returnIndex : ℤ) (result : SEXP) :
    ProcessM ρ Unit := do
  let (method, path) ← inR fun _ => returnFile params returnIndex
  emit 9000100 9
  tryCatch (inR (rt.compssSerialize result path method)) fun e => throw e
  emit 9000100 0
  let _verified := rt.readable path (← get).session

/-- The try block of `executeTask`. The handlers inside it log and rethrow. -/
def attemptTask (rt : Runtime ρ) (message : TaskMessage) : ProcessM ρ Bool := do
  if !rt.readable message.moduleFile (← get).session then
    writeLine (endTask message.taskId 1)
    return false
  emit 9000100 5
  tryCatch (inR (rt.source message.moduleFile)) fun e => throw e
  emit 9000100 0
  if !(← inR (rt.globalEnvExists message.func)) then
    emit 9000100 13
    writeLine (endTask message.taskId 1)
    emit 9000100 0
    return false
  let built ← tryCatch (inR fun a => buildFunctionArgs rt a message.params) fun e => throw e
  emit 9000100 6
  noteCall message.func
  let result ← tryCatch (inR (callFunction rt message.func built.args)) fun e => throw e
  emit 9000100 0
  (if 0 < built.numReturns then sendReturnValue rt message.params built.returnIndex result
    else pure ())
  emit 9000100 11
  writeLine (endTask message.taskId 0)
  emit 9000100 0
  return true

/-- The bindings stand before the try block; the three handlers behind it are one. -/
def executeTask (rt : Runtime ρ) (sched : Scheduler) (message : TaskMessage) :
    ProcessM ρ Bool := do
  let _binded ← bindTask sched message
  let done ← tryCatch (some <$> attemptTask rt message) fun _ => return none
  match done with
  | some success => return success
  | none =>
      emit 9000100 13
      writeLine (endTask message.taskId 1)
      emit 9000100 0
      return false

section
variable (rt : Runtime ρ) (message : TaskMessage) (a : Affinity)

/-- From session `s` the module was sourced, the function found, the arguments decoded and
the function called, all without error. -/
inductive Called (s : ρ) : FunctionArgs → SEXP → ρ → Prop
  | mk {s₁ s₂ s₃ s₄ : ρ} {built : FunctionArgs} {result : SEXP}
      (readable : rt.readable message.moduleFile s = true)
      (sourced : exec (rt.source message.moduleFile a) s = (.ok (), s₁))
      (found : exec (rt.globalEnvExists message.func a) s₁ = (.ok true, s₂))
      (decoded : exec (buildFunctionArgs rt a message.params) s₂ = (.ok built, s₃))
      (returned : exec (callFunction rt message.func built.args a) s₃ = (.ok result, s₄)) :
      Called s built result s₄

/-- Every step of the task went well, the serialization of a result included; the path of
its file, and the session then. -/
inductive Succeeds (s : ρ) : Option Text → ρ → Prop
  | noReturn {built : FunctionArgs} {result : SEXP} {t : ρ}
      (called : Called rt message a s built result t) (unwanted : built.numReturns ≤ 0) :
      Succeeds s none t
  | withReturn {built : FunctionArgs} {result : SEXP} {s' s'' t : ρ} {method path : Text}
      (called : Called rt message a s built result s') (wanted : 0 < built.numReturns)
      (file : exec (returnFile message.params built.returnIndex) s' = (.ok (method, path), s''))
      (serialized : exec (rt.compssSerialize result path method a) s'' = (.ok (), t)) :
      Succeeds s (some path) t

end

/-- All a task leaves behind besides the session and events: its replies, and the call of
its function under the affinity at hand. -/
def Left (message : TaskMessage) (replies : List Text) (p q : Process ρ) : Prop :=
  q.affinity = p.affinity ∧ q.output = p.output ++ replies ∧
    (q.calls = p.calls ∨ q.calls = p.calls ++ [(message.func, p.affinity)])

/-- Where the try block can stop: at one of its two replies, at the last one after every
step succeeded, or by raising without a reply. -/
theorem attemptTask_meets (rt : Runtime ρ) (message : TaskMessage) (p : Process ρ) :
    Meets (attemptTask rt message) p
      (fun success q => Left message [endTask message.taskId (if success then 0 else 1)] p q ∧
        (success = true → q.calls = p.calls ++ [(message.func, p.affinity)] ∧
          ∃ path, Succeeds rt message p.affinity p.session path q.session))
      (fun _ q => Left message [] p q) := by
  unfold attemptTask
  rw [meets_bind, meets_get]
  split
  · simp [Left]
  next hmod =>
    simp only [meets_bind, meets_emit, meets_rethrow]
    refine meets_inR (fun _ s₁ hsource => ?_) fun e s₁ _ => by simp [Left]
    refine meets_inR (fun found s₂ hfound => ?_) fun e s₂ _ => by simp [Left]
    cases found
    · simp [Left]
    · simp only [Bool.not_true, Bool.false_eq_true, if_false, meets_bind, meets_rethrow]
      refine meets_inR (fun built s₃ hbuilt => ?_) fun e s₃ _ => by simp [Left]
      simp only [meets_emit, meets_noteCall]
      refine meets_inR (fun result s₄ hcall => ?_) fun e s₄ _ => by simp [Left]
      have hcalled : Called rt message p.affinity p.session built result s₄ :=
        .mk (by simpa using hmod) hsource hfound hbuilt hcall
      split
      next hret =>
        unfold sendReturnValue
        simp only [meets_bind]
        refine meets_inR (fun file s₅ hfile => ?_) fun e s₅ _ => by simp [Left]
        simp only [meets_emit, meets_rethrow]
        refine meets_inR (fun _ s₆ hser => ?_) fun e s₆ _ => by simp [Left]
        have hsucc : Succeeds rt message p.affinity p.session (some file.2) s₆ :=
          .withReturn hcalled hret hfile hser
        simpa [Left] using ⟨_, hsucc⟩
      next hret =>
        have hsucc : Succeeds rt message p.affinity p.session none s₄ :=
          .noReturn hcalled (not_lt.mp hret)
        simpa [Left] using ⟨_, hsucc⟩

/-- When every step goes well the try block returns true. -/
theorem attemptTask_of_succeeds {rt : Runtime ρ} {message : TaskMessage} {p : Process ρ}
    {path : Option Text} {t : ρ} (h : Succeeds rt message p.affinity p.session path t) :
    ∃ q, exec (attemptTask rt message) p = (.ok true, q) ∧ q.session = t := by
  unfold attemptTask
  rcases h with ⟨⟨hmod, hsource, hfound, hbuilt, hcall⟩, hret⟩ |
    ⟨⟨hmod, hsource, hfound, hbuilt, hcall⟩, hret, hfile, hser⟩
  · simp [exec_bind, hmod, hsource, hfound, hbuilt, hcall, not_lt.mpr hret]
  · simp [exec_bind, hmod, hsource, hfound, hbuilt, hcall, hret, sendReturnValue, hfile, hser]

/-- The affinity a task runs under, from the one it finds. -/
def boundAffinity (sched : Scheduler) (message : TaskMessage) (a : Affinity) : Affinity :=
  (a.withCpus sched message.cpus).withGpus message.gpus

/-- The state after a task: one reply, at most one call, and the affinity bound for it. -/
structure Executed (rt : Runtime ρ) (sched : Scheduler) (message : TaskMessage)
    (p q : Process ρ) (success : Bool) : Prop where
  affinity : q.affinity = boundAffinity sched message p.affinity
  output : q.output = p.output ++ [endTask message.taskId (if success then 0 else 1)]
  calls : q.calls = p.calls ∨
    q.calls = p.calls ++ [(message.func, boundAffinity sched message p.affinity)]
  called : success = true →
    q.calls = p.calls ++ [(message.func, boundAffinity sched message p.affinity)]
  succeeds : success = true →
    ∃ path, Succeeds rt message (boundAffinity sched message p.affinity) p.session path q.session

/-- A task always returns, whatever its steps do. -/
theorem exec_executeTask (rt : Runtime ρ) (sched : Scheduler) (message : TaskMessage)
    (p : Process ρ) :
    ∃ success q, exec (executeTask rt sched message) p = (.ok success, q) ∧
      Executed rt sched message p q success := by
  obtain ⟨events, hbind⟩ := exec_bindTask sched message p
  let bound : Process ρ :=
    { p with affinity := boundAffinity sched message p.affinity, events := events }
  have hmeets := attemptTask_meets rt message bound
  unfold executeTask
  rw [exec_bind_ok (show exec (bindTask sched message) p = (.ok _, bound) from hbind), exec_bind,
    exec_tryCatch, exec_map]
  rcases hmeets.run with ⟨success, q, hrun, ⟨haff, hout, hcalls⟩, hsucc⟩ |
    ⟨e, q, hrun, haff, hout, hcalls⟩ <;> rw [hrun]
  · exact ⟨success, q, rfl, haff, hout, hcalls, fun h => (hsucc h).1, fun h => (hsucc h).2⟩
  · refine ⟨false, _, rfl, haff, ?_, hcalls, by simp, by simp⟩
    have hout' : q.output = p.output := by simpa [bound] using hout
    simp [hout']

theorem executeTask_of_succeeds {rt : Runtime ρ} {sched : Scheduler} {message : TaskMessage}
    {p : Process ρ} {path : Option Text} {t : ρ}
    (h : Succeeds rt message (boundAffinity sched message p.affinity) p.session path t) :
    ∃ q, exec (executeTask rt sched message) p = (.ok true, q) ∧ q.session = t := by
  obtain ⟨events, hbind⟩ := exec_bindTask sched message p
  let bound : Process ρ :=
    { p with affinity := boundAffinity sched message p.affinity, events := events }
  obtain ⟨q, hrun, hq⟩ := attemptTask_of_succeeds (show
    Succeeds rt message bound.affinity bound.session path t from h)
  refine ⟨q, ?_, hq⟩
  unfold executeTask
  rw [exec_bind_ok (show exec (bindTask sched message) p = (.ok _, bound) from hbind), exec_bind,
    exec_tryCatch, exec_map, hrun]
  rfl

/-- A session in which everything works, but nothing reaches the disk. -/
def fullDisk : Runtime Unit where
  readable path _ := path = "square.R".toList
  source _ _ := pure ()
  globalEnvExists _ _ := pure true
  callClosure _ _ := pure .nil
  doCall _ _ _ := pure .nil
  compssUnserialize _ _ := pure .nil
  compssSerialize _ _ _ _ := pure ()
  stod _ := none

/-- A task without arguments that returns a value. -/
def nullaryTask : TaskMessage where
  taskId := "7".toList
  sandbox := "sandbox".toList
  jobOut := "job.out".toList
  jobErr := "job.err".toList
  tracing := "false".toList
  debug := "false".toList
  moduleFile := "square.R".toList
  func := "square".toList
  params := ["0", "-", "-", "false", "-", "1", "1", "10", "3", "null", "cpp-RETURN_VALUE",
    "object", "node:/tmp/ret"].map String.toList
  cpus := "-".toList
  gpus := "-".toList

theorem nullaryTask_succeeds (a : Affinity) :
    Succeeds fullDisk nullaryTask a () (some "/tmp/ret".toList) () := by
  have hcalled : Called fullDisk nullaryTask a () ⟨[], 8, 1⟩ .nil () :=
    .mk rfl rfl rfl rfl rfl
  have hfile : exec (returnFile nullaryTask.params 8) () =
      (.ok ("cpp".toList, "/tmp/ret".toList), ()) := rfl
  exact .withReturn hcalled (by decide) hfile rfl

end RCompss.Executor
