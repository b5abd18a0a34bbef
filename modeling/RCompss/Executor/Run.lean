import RCompss.Executor.Task

/-! The loop of the executor over the lines of its input fifo. -/
namespace RCompss.Executor
open RCompss.Library

variable {ρ : Type}

/-- A line of the input fifo, and what the system does while its task is bound. -/
structure Delivery where
  line : Text
  sched : Scheduler

def quitLine : Text := "QUIT".toList

/-- The body of the loop for a line that does not end it. -/
def handleLine (rt : Runtime ρ) (d : Delivery) : ProcessM ρ Unit := do
  if d.line = [] then
    return
  match parseTaskMessage d.line with
  | none => return
  | some message =>
      emit 9000200 6
      emit 9000100 4
      let _success ← executeTask rt d.sched message
      emit 9000100 0
      emit 9000200 0

/-- Read lines until the quit line or the end of the fifo. -/
def runLoop (rt : Runtime ρ) : List Delivery → ProcessM ρ Unit
  | [] => return
  | d :: ds => do
      if d.line = quitLine then
        return
      handleLine rt d
      runLoop rt ds

/-- `ExecutorCore::run` from a started R session on. -/
def run (rt : Runtime ρ) (executorId : ℕ) (deliveries : List Delivery) : ProcessM ρ ℤ := do
  emit 9000200 1
  emit 8001003 8
  emit 8001112 executorId
  emit 9000200 3
  emit 9000200 0
  runLoop rt deliveries
  emit 9000200 0
  return 0

/-- The tasks that a sequence of lines makes the executor run, in order. -/
def tasksOf (ds : List Delivery) : List (Scheduler × TaskMessage) :=
  (ds.takeWhile fun d => d.line ≠ quitLine).filterMap fun d =>
    (parseTaskMessage d.line).map fun message => (d.sched, message)

theorem parseTaskMessage_nil : parseTaskMessage [] = none := by
  simp [parseTaskMessage, splitWhitespace]

/-- A line runs its task, if it has one, and nothing else. -/
theorem exec_handleLine (rt : Runtime ρ) (d : Delivery) (p : Process ρ) :
    ∃ q, exec (handleLine rt d) p = (.ok (), q) ∧
      match parseTaskMessage d.line with
      | none => q = p
      | some message => ∃ p' q' success, p'.session = p.session ∧ p'.affinity = p.affinity ∧
          p'.output = p.output ∧ p'.calls = p.calls ∧
          Executed rt d.sched message p' q' success ∧ q.affinity = q'.affinity ∧
          q.output = q'.output ∧ q.calls = q'.calls := by
  unfold handleLine
  by_cases hnil : d.line = []
  · rw [if_pos hnil, hnil, parseTaskMessage_nil]
    exact ⟨p, rfl, rfl⟩
  · rw [if_neg hnil]
    rcases parseTaskMessage d.line with _ | message
    · exact ⟨p, rfl, rfl⟩
    · simp only [exec_bind, exec_emit]
      let p' : Process ρ := { p with events := p.events ++ [(9000200, 6)] ++ [(9000100, 4)] }
      obtain ⟨success, q', hrun, hex⟩ := exec_executeTask rt d.sched message p'
      rw [hrun]
      exact ⟨_, rfl, p', q', success, rfl, rfl, rfl, rfl, hex, rfl, rfl, rfl⟩

/-- The reply to a task: its own id and one of the two statuses. -/
def IsReply (task : Scheduler × TaskMessage) (reply : Text) : Prop :=
  ∃ status, (status = 0 ∨ status = 1) ∧ reply = endTask task.2.taskId status

/-- The whole loop returns, having replied to each of its tasks in turn, and leaves the
affinity that the tasks bound one after the other. -/
theorem exec_runLoop (rt : Runtime ρ) (ds : List Delivery) (p : Process ρ) :
    ∃ q replies, exec (runLoop rt ds) p = (.ok (), q) ∧ q.output = p.output ++ replies ∧
      List.Forall₂ IsReply (tasksOf ds) replies ∧
      q.affinity = (tasksOf ds).foldl (fun a t => boundAffinity t.1 t.2 a) p.affinity := by
  induction ds generalizing p with
  | nil => exact ⟨p, [], rfl, by simp, .nil, rfl⟩
  | cons d ds ih =>
    unfold runLoop
    by_cases hquit : d.line = quitLine
    · simp only [hquit, if_true]
      exact ⟨p, [], rfl, by simp, by simp [tasksOf, hquit], by simp [tasksOf, hquit]⟩
    · rw [if_neg hquit]
      obtain ⟨p₁, hline, hd⟩ := exec_handleLine rt d p
      obtain ⟨q, replies, hrun, hout, hreplies, haff⟩ := ih p₁
      rw [exec_bind_ok hline]
      rcases hparse : parseTaskMessage d.line with _ | message
      · rw [hparse] at hd
        obtain rfl : p₁ = p := hd
        have htasks : tasksOf (d :: ds) = tasksOf ds := by simp [tasksOf, hquit, hparse]
        exact ⟨q, replies, hrun, hout, htasks ▸ hreplies, htasks ▸ haff⟩
      · rw [hparse] at hd
        obtain ⟨p', q', success, -, hpa, hpo, -, hex, hqa, hqo, -⟩ := hd
        have htasks : tasksOf (d :: ds) = (d.sched, message) :: tasksOf ds := by
          simp [tasksOf, hquit, hparse]
        refine ⟨q, endTask message.taskId (if success then 0 else 1) :: replies, hrun, ?_, ?_, ?_⟩
        · rw [hout, hqo, hex.output, hpo, List.append_assoc]
          rfl
        · rw [htasks]
          exact .cons ⟨_, by cases success <;> simp, rfl⟩ hreplies
        · rw [htasks, List.foldl_cons, haff, hqa, hex.affinity, hpa]

/-- The lines before the quit line that carry a task. -/
def acceptedLines (ds : List Delivery) : List Text :=
  ((ds.map Delivery.line).takeWhile (· ≠ quitLine)).filter fun line =>
    (parseTaskMessage line).isSome

/-- The task lines and the tasks correspond one to one. -/
theorem acceptedLines_tasksOf (ds : List Delivery) :
    List.Forall₂ (fun line t => parseTaskMessage line = some t.2) (acceptedLines ds)
      (tasksOf ds) := by
  induction ds with
  | nil => exact .nil
  | cons d ds ih =>
    by_cases hquit : d.line = quitLine
    · simp [acceptedLines, tasksOf, hquit]
    · rcases hparse : parseTaskMessage d.line with _ | message
      · simpa [acceptedLines, tasksOf, hquit, hparse] using ih
      · simpa [acceptedLines, tasksOf, hquit, hparse] using ih

theorem replies_of_tasks {lines : List Text} {tasks : List (Scheduler × TaskMessage)}
    {replies : List Text}
    (hlines : List.Forall₂ (fun line t => parseTaskMessage line = some t.2) lines tasks)
    (hreplies : List.Forall₂ IsReply tasks replies) :
    List.Forall₂ (fun line reply => ∃ taskId status, (splitWhitespace line)[1]? = some taskId ∧
      (status = 0 ∨ status = 1) ∧ reply = endTask taskId status) lines replies := by
  induction hlines generalizing replies with
  | nil =>
    cases hreplies
    exact .nil
  | cons hline _ ih =>
    obtain _ | ⟨⟨status, hstatus, rfl⟩, htail⟩ := hreplies
    exact .cons ⟨_, status, parseTaskMessage_taskId hline, hstatus, rfl⟩ (ih htail)

/-- One reply per task: to the lines before the quit line that carry a task, and only to
them, the executor writes one line each, in order, with the line's second token as the id
and status 0 or 1. -/
theorem run_replies (rt : Runtime ρ) (executorId : ℕ) (ds : List Delivery) (p : Process ρ) :
    ∃ q replies, exec (run rt executorId ds) p = (.ok 0, q) ∧ q.output = p.output ++ replies ∧
      List.Forall₂ (fun line reply => ∃ taskId status,
        (splitWhitespace line)[1]? = some taskId ∧ (status = 0 ∨ status = 1) ∧
          reply = endTask taskId status) (acceptedLines ds) replies := by
  let started : Process ρ := { p with events := p.events ++ [(9000200, 1)] ++ [(8001003, 8)] ++
    [(8001112, executorId)] ++ [(9000200, 3)] ++ [(9000200, 0)] }
  obtain ⟨q, replies, hrun, hout, hreplies, -⟩ := exec_runLoop rt ds started
  refine ⟨{ q with events := q.events ++ [(9000200, 0)] }, replies, ?_, hout, ?_⟩
  · unfold run
    simp only [exec_bind, exec_emit]
    rw [show exec (runLoop rt ds) started = _ from hrun]
    rfl
  · exact replies_of_tasks (acceptedLines_tasksOf ds) hreplies

end RCompss.Executor
