import RCompss.Executor.Isolation
import RCompss.Executor.Truthful
import RCompss.Payload.Disk
import RCompss.System.Run

/-! Whatever the runtime does, the files hold what they hold when the tasks run one after the
other. -/
namespace RCompss.System
open RCompss.Library RCompss.Payload RCompss.Executor

section
variable {ρ : Type} {c : Config ρ}

/-- A task of the system as a task over what its files read as. -/
def TaskLine.dataTask (c : Config ρ) (t : TaskLine) : DataTask Text SEXP where
  reads := { path | path ∈ t.inputs }
  output := t.output
  eval := t.eval c
  depends σ τ h := by
    have hvalue : t.value c.runtime.stod c.functions σ = t.value c.runtime.stod c.functions τ :=
      taskValue_congr h
    unfold TaskLine.eval
    rw [hvalue]

def Entry.dataTask (c : Config ρ) : Entry → DataTask Text SEXP
  | .written path reads => .const path reads
  | .task t => t.dataTask c

/-- What the files of a state read as, and who is at work on them. -/
def State.dataflow (c : Config ρ) (s : State ρ) : Dataflow Text SEXP where
  store := readable c.packages s.files
  program := s.entries.map (Entry.dataTask c)
  settled := s.done
  running path := (s.underway path).map fun u => u.seen.map (readable c.packages)

theorem Entry.output_dataTask (e : Entry) : (e.dataTask c).output = e.path := by
  cases e <;> rfl

theorem State.targets_dataflow (s : State ρ) :
    targets (s.dataflow c).program = s.entries.map Entry.path := by
  unfold targets State.dataflow
  rw [List.map_map]
  exact List.map_congr_left fun e _ => e.output_dataTask

theorem readable_update (d : Packages) (files : Files) (path : Text) (content : Option Bytes) :
    readable d (Function.update files path content) =
      Function.update (readable d files) path (rcompssUnserialize d path content).toOption := by
  funext m
  unfold readable
  by_cases hm : m = path
  · subst hm
    rw [Function.update_self, Function.update_self]
  · rw [Function.update_of_ne hm, Function.update_of_ne hm]

theorem State.dataflow_put (s : State ρ) (path : Text) (content : Option Bytes) :
    (s.put path content).dataflow c = (s.dataflow c).write path
      (rcompssUnserialize c.packages path content).toOption := by
  unfold State.put State.dataflow Dataflow.write
  simp only [readable_update, Option.map_map, Dataflow.mk.injEq, true_and]
  funext m
  cases s.underway m with
  | none => rfl
  | some u => simp [readable_update]

theorem State.dataflow_underway (s : State ρ) (path : Text) (u : Option Underway) :
    ({ s with underway := Function.update s.underway path u }).dataflow c =
      { s.dataflow c with
        running := Function.update (s.dataflow c).running path
          (u.map fun u => u.seen.map (readable c.packages)) } := by
  unfold State.dataflow
  simp only [Dataflow.mk.injEq, true_and]
  funext m
  by_cases hm : m = path
  · subst hm
    simp only [Function.update_self]
  · simp only [Function.update_of_ne hm]

/-- A line handled on a view of the files: what it does to the file of its result. -/
theorem handled_carriedOut (c : Config ρ) (p : Process (Node ρ)) (t : TaskLine) (view : Files)
    (sched : Scheduler) : ∃ success, CarriedOut c.runtime c.packages c.env c.functions t.toLaidOut
      { p with session := { p.session with files := view } } (State.handled c p t view sched)
      success := by
  let δ : Delivery := ⟨t.line, sched⟩
  have hparse : parseTaskMessage δ.line = some t.message := t.parses
  obtain ⟨success, q, hrun, hdone⟩ := handleLine_carriedOut c.uses c.computes t.toLaidOut
    hparse { p with session := { p.session with files := view } }
  refine ⟨success, ?_⟩
  unfold State.handled
  rw [hrun]
  exact hdone

/-- A task whose steps succeed is done when its line has been handled. -/
theorem succeeded_of_succeeds {p : Process (Node ρ)} {t : TaskLine} {view : Files}
    {sched : Scheduler} {path : Option Text} {n' : Node ρ}
    (h : Succeeds c.runtime t.message (boundAffinity sched t.message p.affinity)
      { p.session with files := view } path n') :
    State.Succeeded t (State.handled c p t view sched) := by
  have hline : t.line ≠ [] := by
    intro hnil
    have hparse := t.parses
    rw [hnil, parseTaskMessage_nil] at hparse
    cases hparse
  let p' : Process (Node ρ) := { p with
    session := { p.session with files := view }
    events := p.events ++ [(9000200, 6)] ++ [(9000100, 4)] }
  obtain ⟨q, hrun, -⟩ := executeTask_of_succeeds (p := p') h
  obtain ⟨success, q', hrun', hexecuted⟩ := exec_executeTask c.runtime sched t.message p'
  cases hrun.symm.trans hrun'
  have hreply := hexecuted.output
  have hend : State.handled c p t view sched =
      { q with events := q.events ++ [(9000100, 0)] ++ [(9000200, 0)] } := by
    unfold State.handled handleLine
    simp only [if_neg hline, t.parses, exec_bind, exec_emit]
    rw [show exec (executeTask c.runtime sched t.message) _ = (.ok true, q) from hrun]
  unfold State.Succeeded
  rw [hend]
  simp only [hreply, List.getLast?_concat, if_true]

/-- After a reply of status 0 the file reads as what the task makes of its view. -/
theorem succeeded_eval {p : Process (Node ρ)} {t : TaskLine} {view : Files} {sched : Scheduler}
    (hover : Overwrites c.packages c.env t.output t.method)
    (h : State.Succeeded t (State.handled c p t view sched)) :
    (rcompssUnserialize c.packages t.output
        ((State.handled c p t view sched).session.files t.output)).toOption =
      t.eval c (readable c.packages view) := by
  obtain ⟨success, hdone⟩ := handled_carriedOut c p t view sched
  have hsuccess : success = true := by
    unfold State.Succeeded at h
    rw [hdone.reply, List.getLast?_concat] at h
    cases success
    · cases endTask_injective t.message.taskId (Option.some.inj h)
    · rfl
  obtain ⟨x, hvalue, hwrite⟩ := hdone.written hsuccess
  unfold TaskLine.eval
  rw [hover x _ _ hwrite]
  simp only at hvalue
  rw [hvalue]
  rfl

theorem dataflow_write (s : State ρ) (object : SEXP) (path method : Text) :
    (State.step c (.write object path method) s).dataflow c =
      Dataflow.step (.put path (rcompssUnserialize c.packages path (exec
        (rcompssSerialize c.packages c.env object path method) (s.files path)).2).toOption)
        (s.dataflow c) := by
  unfold State.step Dataflow.step
  simp only
  rw [← s.dataflow_put]
  rfl

theorem dataflow_start (s : State ρ) (t : TaskLine) (executor : ℕ) :
    (State.step c (.start t executor) s).dataflow c =
      Dataflow.step (.start (t.dataTask c)) (s.dataflow c) :=
  s.dataflow_underway t.output _

/-- A reply of status 0 ends the task, another one leaves what is left of its file. -/
theorem dataflow_finish (s : State ρ) {t : TaskLine} {u : Underway} {view : Files}
    {sched : Scheduler} {q : Process (Node ρ)} (hu : s.underway t.output = some u)
    (hq : State.handled c (s.executors u.executor) t view sched = q)
    (hover : Overwrites c.packages c.env t.output t.method) :
    (State.step c (.finish t view sched) s).dataflow c =
      if State.Succeeded t q then
        Dataflow.step (.finish (t.dataTask c) (readable c.packages view)) (s.dataflow c)
      else
        Dataflow.step (.fail (t.dataTask c)) (Dataflow.step (.scribble t.output
          (rcompssUnserialize c.packages t.output (q.session.files t.output)).toOption)
          (s.dataflow c)) := by
  have hstop := (s.put t.output (q.session.files t.output)).dataflow_underway (c := c) t.output none
  rw [s.dataflow_put] at hstop
  simp only [State.step, hu, hq]
  by_cases hok : State.Succeeded t q
  · rw [if_pos hok, if_pos hok]
    subst hq
    rw [succeeded_eval hover hok] at hstop
    exact congrArg (fun f : Dataflow Text SEXP => { f with settled := insert t.output s.done })
      hstop
  · rw [if_neg hok, if_neg hok]
    exact hstop

/-- What was there before leaves no trace in the file of any task. -/
theorem overwrites_of_reached {files : Files} {executors : ℕ → Process (Node ρ)} {s : State ρ}
    (h : IsReached c files executors s) :
    ∀ t, .task t ∈ s.entries → Overwrites c.packages c.env t.output t.method := by
  apply h.keeps
  · intro t ht
    cases ht
  · intro s event ih hallowed t ht
    cases event with
    | write => exact ih t ((List.mem_cons.mp ht).resolve_left (by simp))
    | submit t' =>
      rcases List.mem_cons.mp ht with heq | ht
      · cases heq
        exact hallowed.2.2
      · exact ih t ht
    | start => exact ih t ht
    | scribble => exact ih t ht
    | finish t' view sched =>
      simp only [State.step] at ht
      split at ht
      · exact ih t ht
      · exact ih t ht

/-- The system, seen through what its files read as, is its tasks at work; a task that fails
scribbles and stops. -/
theorem reached_dataflow {files : Files} {executors : ℕ → Process (Node ρ)} {s : State ρ}
    (h : IsReached c files executors s) :
    Reached Dataflow.step Dataflow.Allowed (.start (readable c.packages files))
      (s.dataflow c) := by
  induction h with
  | start => exact .start
  | @next s event hs hallowed ih =>
    have htargets := s.targets_dataflow (c := c)
    have htask : ∀ t, .task t ∈ s.entries → t.dataTask c ∈ (s.dataflow c).program :=
      fun t ht => List.mem_map_of_mem (f := Entry.dataTask c) ht
    cases event with
    | write object path method =>
      rw [dataflow_write]
      apply Reached.next _ ih
      rw [Dataflow.Allowed, htargets]
      exact hallowed
    | submit t =>
      obtain ⟨hfresh, hknown, -⟩ := hallowed
      apply Reached.next (.submit (t.dataTask c)) ih
      rw [Dataflow.Allowed, htargets]
      exact ⟨hfresh, hknown⟩
    | start t executor =>
      obtain ⟨ht, hready, hopen, -⟩ := hallowed
      rw [dataflow_start]
      exact Reached.next _ ih ⟨htask t ht, hready, hopen⟩
    | scribble path left =>
      have hrunning : ((s.dataflow c).running path).isSome = true := by
        rw [State.dataflow, Option.isSome_map]
        exact hallowed
      rw [State.step, s.dataflow_put]
      exact Reached.next (.scribble path (rcompssUnserialize c.packages path left).toOption) ih
        (by exact hrunning)
    | finish t view sched =>
      obtain ⟨ht, u, hu, hview⟩ := hallowed
      have hrunning : (s.dataflow c).running t.output =
          some (u.seen.map (readable c.packages)) := by
        simp only [State.dataflow, hu, Option.map_some]
      rw [dataflow_finish s hu rfl (overwrites_of_reached hs t ht)]
      split
      · apply Reached.next _ ih
        refine ⟨htask t ht, _, hrunning, fun path hpath => ?_⟩
        obtain ⟨seen, hseen, hsame⟩ := hview path hpath
        refine ⟨readable c.packages seen, List.mem_map_of_mem hseen, ?_⟩
        unfold readable
        rw [hsame]
      · have hscribbled := Reached.next (.scribble t.output
          (rcompssUnserialize c.packages t.output ((State.handled c (s.executors u.executor) t view
            sched).session.files t.output)).toOption) ih (by rw [Dataflow.Allowed, hrunning]; rfl)
        exact Reached.next (.fail (t.dataTask c)) hscribbled (by rw [Dataflow.Allowed]; trivial)

/-- In whatever order the runtime starts the tasks, on however many executors, and however
often some of them fail, a file that is done reads as it does when the tasks run one after the
other; that of a task, as what its function makes of the files it reads. -/
theorem runs_sequentially (c : Config ρ) (files : Files) (executors : ℕ → Process (Node ρ))
    (s : State ρ) (h : Reached (State.step c) (State.Allowed c) (.start files executors) s) :
    (∀ path ∈ s.done, readable c.packages s.files path =
        sequential (s.entries.map (Entry.dataTask c)) path) ∧
      ∀ t, .task t ∈ s.entries → t.output ∈ s.done →
        readable c.packages s.files t.output = t.eval c (readable c.packages s.files) := by
  have hsound := Dataflow.sound_of_reached (reached_dataflow h)
  refine ⟨hsound.settled, fun t ht hdone => ?_⟩
  have htask : t.dataTask c ∈ (s.dataflow c).program :=
    List.mem_map_of_mem (f := Entry.dataTask c) ht
  exact hsound.eval_store htask hdone

end

/-- `pair <- function(x) length(x) == 2`. -/
def pair : Functions
  | _, _, [(_, .object v)] => some (.atom (.lgl [if v.length = 2 then 1 else 0]) [])
  | _, _, _ => none

def pairConfig : Config Text := .ofFunctions plainPackages none pair fun _ => none

/-- The files of a call of it with one argument. -/
def argumentFile : Text :=
  buildArgumentFilename "/tmp".toList "cpp".toList "x".toList 1 sampleUID.text

def resultFile : Text := returnValueFilename "/tmp".toList "cpp".toList sampleUID.text

theorem ten_ne_eight : "10".toList ≠ "8".toList := by decide

theorem one_countable : 1 < 2 ^ 31 := by decide

theorem two_countable : 1 + 1 < 2 ^ 31 := by decide

theorem parseBool_F : parseBool "F".toList = 0 := by decide

def pairLayout : Layout where
  hosts := ["localhost".toList]
  afterHosts := ("-".toList, "-".toList)
  target := "F".toList
  afterTarget := "-".toList
  records := [.scalar "10".toList "3".toList "null".toList "x".toList "object".toList
    ("node:".toList ++ argumentFile) ten_ne_eight]
  returned := some (.scalar "10".toList "3".toList "null".toList "cpp-RETURN_VALUE".toList
    "object".toList ("node:".toList ++ resultFile) ten_ne_eight)
  hosts_countable := one_countable
  no_target := parseBool_F
  records_countable := two_countable

/-- The line of a call of `pair` on one file, with another for its result. -/
def pairTask : TaskLine where
  message := { boundTask with
    moduleFile := "pair.R".toList
    func := "pair".toList
    params := pairLayout.params
    cpus := "-".toList
    gpus := "-".toList }
  layout := pairLayout
  result := .scalar "10".toList "3".toList "null".toList "cpp-RETURN_VALUE".toList
    "object".toList ("node:".toList ++ resultFile) ten_ne_eight
  params := rfl
  returned := rfl
  line := List.intercalate [' '] ((["EXECUTE_TASK", "1", "sandbox", "job.out", "job.err", "false",
    "-", "false", "-", "-", "pair.R", "pair", "-"].map String.toList) ++ pairLayout.params ++
      ["-".toList, "-".toList, "-".toList])
  parses := by
    unfold parseTaskMessage
    rw [splitWhitespace_join (by decide)]
    rfl

/-- An executor that has done nothing yet. -/
def freshExecutor : Process (Node Text) where
  session := ⟨fun _ => none, []⟩
  affinity := ⟨none, none, none, none, none, {0}⟩
  events := []
  output := []
  calls := []

/-- The master writes `1:2` and submits the task. -/
def pairSubmitted : State Text :=
  State.step pairConfig (.submit pairTask) (State.step pairConfig
    (.write oneTwo.value argumentFile "cpp".toList) (.start (fun _ => none) fun _ => freshExecutor))

theorem pair_paths : pairTask.inputs = [argumentFile] ∧
    pairTask.output = resultFile ∧ pairTask.method = "cpp".toList := by
  decide

theorem pairSubmitted_reached :
    IsReached pairConfig (fun _ => none) (fun _ => freshExecutor) pairSubmitted := by
  have hover : Overwrites plainPackages none pairTask.output pairTask.method :=
    overwrites_cpp plainPackages (by decide) _
  refine .next _ (.next _ .start ?_) ⟨?_, ?_, hover⟩
  · exact List.not_mem_nil
  · decide
  · decide

/-- What the format retains whole passes through a file as it is. -/
theorem plain_transported (v : Serialization.ShortValue) {path : Text} (old : Option Bytes)
    (hread : readFormat path = .cpp) (hretained : Serialization.retained v.value = v.value)
    (hpayload : (Serialization.payload v.value).isSome) : ∃ content,
      exec (rcompssSerialize plainPackages none v.value path "cpp".toList) old =
          (.ok (), content) ∧
        rcompssUnserialize plainPackages path content = .ok v.value := by
  rcases rcompssUnserialize_rcompssSerialize plainPackages none v path "cpp".toList old rfl
    (by decide) hread with ⟨-, content, hrun, hback⟩ | ⟨hp, -⟩
  · rw [hretained] at hback
    exact ⟨content, hrun, hback⟩
  · rw [hp] at hpayload
    cases hpayload

theorem oneTwo_transported (old : Option Bytes) : ∃ content,
    exec (rcompssSerialize plainPackages none oneTwo.value argumentFile "cpp".toList) old =
        (.ok (), content) ∧
      rcompssUnserialize plainPackages argumentFile content = .ok oneTwo.value := by
  apply plain_transported oneTwo old (by decide)
  · exact bare_retained _
  · exact bare_payload _

theorem true_transported (old : Option Bytes) : ∃ content,
    exec (rcompssSerialize plainPackages none trueValue.value resultFile "cpp".toList)
        old = (.ok (), content) ∧
      rcompssUnserialize plainPackages resultFile content = .ok trueValue.value := by
  apply plain_transported trueValue old (by decide)
  · exact bare_retained _
  · exact bare_payload _

theorem pair_value {σ : Text → Option SEXP} (h : σ argumentFile = some oneTwo.value) :
    pairTask.value (fun _ => none) pair σ = some trueValue.value := by
  have hrecord : (ArgRecord.scalar "10".toList "3".toList "null".toList "x".toList "object".toList
      ("node:".toList ++ argumentFile) (by decide)).valueIn (fun _ => none) σ =
        some (.object oneTwo.value) := by
    have hpath : stripValueSuffix ("node:".toList ++ argumentFile) = argumentFile := by decide
    unfold ArgRecord.valueIn
    simp only
    rw [if_neg (by decide), if_neg (by decide), if_neg (by decide), if_pos trivial,
      if_pos (by decide), hpath, h]
    rfl
  unfold LaidOut.value taskValue
  rw [show pairTask.layout.records = [_] from rfl, List.mapM_cons, hrecord]
  rfl

/-- The first executor has the task. -/
def pairStarted : State Text := State.step pairConfig (.start pairTask 0) pairSubmitted

theorem pair_start_allowed :
    State.Allowed pairConfig pairSubmitted (.start pairTask 0) := by
  refine ⟨List.mem_cons_self, fun path hpath => ?_, fun hdone => ?_, fun path u hu => ?_⟩
  · rw [pair_paths.1] at hpath
    exact .inl (List.mem_singleton.mp hpath)
  · rcases hdone with hdone | hdone
    · revert hdone
      decide
    · exact hdone
  · cases hu

theorem pairStarted_reached :
    IsReached pairConfig (fun _ => none) (fun _ => freshExecutor) pairStarted :=
  .next _ pairSubmitted_reached pair_start_allowed

theorem pairStarted_underway :
    pairStarted.underway pairTask.output = some ⟨0, [pairSubmitted.files]⟩ := by
  simp only [pairStarted, State.step, Function.update_self]

/-- And carries it out. -/
def pairDone : State Text :=
  State.step pairConfig (.finish pairTask pairStarted.files some) pairStarted

theorem pair_finish_allowed : State.Allowed pairConfig pairStarted
    (.finish pairTask pairStarted.files some) :=
  ⟨List.mem_cons_self, _, pairStarted_underway, fun _ _ => ⟨_, List.mem_singleton.mpr rfl, rfl⟩⟩

theorem pairDone_reached :
    IsReached pairConfig (fun _ => none) (fun _ => freshExecutor) pairDone :=
  .next _ pairStarted_reached pair_finish_allowed

theorem pair_input : readable plainPackages pairStarted.files argumentFile =
    some oneTwo.value := by
  obtain ⟨content, hrun, hback⟩ := oneTwo_transported none
  have hfile : pairStarted.files argumentFile = (exec (rcompssSerialize plainPackages
      none oneTwo.value argumentFile "cpp".toList) none).2 := by
    simp only [pairStarted, pairSubmitted, State.step, State.put, Function.update_self]
    rfl
  unfold readable
  rw [hfile, hrun, hback]
  rfl

theorem pair_succeeded : pairTask.output ∈ pairDone.done := by
  obtain ⟨content, hrun, -⟩ := true_transported
    ({ freshExecutor.session with files := pairStarted.files }.files pairTask.output)
  obtain ⟨path, n', hsucceeds⟩ : ∃ path n', Succeeds pairConfig.runtime pairTask.message
      (boundAffinity some pairTask.message freshExecutor.affinity)
      { freshExecutor.session with files := pairStarted.files } path n' :=
    payloadRuntime_succeeds pairTask.toLaidOut _ _ (pair_value pair_input) hrun
  have hok := succeeded_of_succeeds hsucceeds
  have hdone : pairDone.done = insert pairTask.output pairStarted.done := by
    unfold pairDone State.step
    simp only [pairStarted_underway]
    exact if_pos hok
  rw [hdone]
  exact Set.mem_insert _ _

theorem pair_sequential : sequential (pairSubmitted.entries.map (Entry.dataTask pairConfig))
    argumentFile = some oneTwo.value := by
  obtain ⟨content, hrun, hback⟩ := oneTwo_transported none
  have hwritten : sequential (pairSubmitted.entries.map (Entry.dataTask pairConfig))
      argumentFile = (rcompssUnserialize plainPackages argumentFile (exec
        (rcompssSerialize plainPackages none oneTwo.value argumentFile "cpp".toList)
        none).2).toOption := by
    refine (sequential_of_ne (t := pairTask.dataTask pairConfig) ?_).trans ?_
    · exact (by decide : argumentFile ≠ pairTask.output)
    · exact Function.update_self _ _ _
  rw [hrun, hback] at hwritten
  exact hwritten

/-- The file of `pair(1:2)` reads as `TRUE`, which is what the function makes of the file of
its argument. -/
theorem pair_runs_sequentially :
    readable plainPackages pairDone.files pairTask.output = some trueValue.value := by
  obtain ⟨hfiles, htasks⟩ := runs_sequentially pairConfig (fun _ => none)
    (fun _ => freshExecutor) pairDone pairDone_reached
  have hsound := Dataflow.sound_of_reached (reached_dataflow pairDone_reached)
  have hdone : argumentFile ∈ pairDone.done :=
    hsound.closed (pairTask.dataTask pairConfig) List.mem_cons_self pair_succeeded
      (by decide : argumentFile ∈ pairTask.inputs)
  have hinput : readable plainPackages pairDone.files argumentFile = some oneTwo.value :=
    (hfiles _ hdone).trans pair_sequential
  obtain ⟨content, hrun, hback⟩ := true_transported none
  have hvalue := htasks pairTask List.mem_cons_self pair_succeeded
  have heval : pairTask.eval pairConfig (readable plainPackages pairDone.files) =
      transported plainPackages none pairTask.output pairTask.method trueValue.value := by
    unfold TaskLine.eval
    rw [show pairTask.value pairConfig.runtime.stod pairConfig.functions _ =
      some trueValue.value from pair_value hinput]
    rfl
  refine hvalue.trans (heval.trans ?_)
  unfold transported
  rw [pair_paths.2.1, pair_paths.2.2, hrun]
  simp only [hback]
  rfl

end RCompss.System
