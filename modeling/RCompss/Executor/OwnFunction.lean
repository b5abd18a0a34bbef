import RCompss.Executor.GlobalEnvironment

/-! Which module the function that runs comes from. -/
namespace RCompss.Executor
open RCompss.Library

section
variable {ρ : Type} (rt : Runtime ρ) (message : TaskMessage)

/-- What the try block does in the session before its call; `none` where it gives up without
an exception. -/
def prepare (a : Affinity) : SessionM ρ (Option FunctionArgs) := do
  if rt.readable message.moduleFile (← get) then
    rt.source message.moduleFile a
    if ← rt.globalEnvExists message.func a then
      return some (← buildFunctionArgs rt a message.params)
    else
      return none
  else
    return none

/-- The try block from the call on. -/
def callAndReply (built : FunctionArgs) : ProcessM ρ Bool := do
  let result ← tryCatch (inR (callFunction rt message.func built.args)) fun e => throw e
  emit 9000100 0
  (if 0 < built.numReturns then sendReturnValue rt message.params built.returnIndex result
    else pure ())
  emit 9000100 11
  writeLine (endTask message.taskId 0)
  emit 9000100 0
  return true

theorem keeps_inR {α : Type} {I : ρ → Prop} {code : Affinity → SessionM ρ α}
    (h : ∀ a, Keeps I (code a)) : Keeps (fun p : Process ρ => I p.session) (inR code) := by
  intro p hp
  have hrun := h p.affinity p.session hp
  refine meets_inR (fun _ s hs => ?_) fun _ s hs => ?_
  · rw [Meets, hs] at hrun
    exact hrun
  · rw [Meets, hs] at hrun
    exact hrun

/-- The try block prepares the call and then makes it, unless it stops before. -/
theorem attemptTask_prepare (p : Process ρ) :
    match exec (prepare rt message p.affinity) p.session with
    | (.ok (some built), s) => ∃ events calls, exec (attemptTask rt message) p =
        exec (callAndReply rt message built) { p with session := s, events, calls }
    | (.ok none, s) => ∃ events, exec (attemptTask rt message) p = (.ok false,
        { p with session := s, events, output := p.output ++ [endTask message.taskId 1] })
    | (.error e, s) => ∃ events, exec (attemptTask rt message) p =
        (.error e, { p with session := s, events }) := by
  unfold prepare attemptTask callAndReply
  by_cases hread : rt.readable message.moduleFile p.session = true
  · simp only [exec_bind, exec_get, hread, exec_inR, exec_emit, exec_rethrow, Bool.not_true,
      Bool.false_eq_true, if_false, if_true]
    rcases exec (rt.source message.moduleFile p.affinity) p.session with ⟨_ | _, s₁⟩
    · exact ⟨_, rfl⟩
    simp only []
    rcases exec (rt.globalEnvExists message.func p.affinity) s₁ with ⟨_ | found, s₂⟩
    · exact ⟨_, rfl⟩
    cases found with
    | false => exact ⟨_, rfl⟩
    | true =>
      simp only [if_true, exec_bind, Bool.not_true, Bool.false_eq_true, if_false, exec_inR,
        exec_rethrow]
      rcases exec (buildFunctionArgs rt p.affinity message.params) s₂ with ⟨_ | built, s₃⟩
      · exact ⟨_, rfl⟩
      · exact ⟨_, _, rfl⟩
  · simp only [exec_bind, exec_get, hread, Bool.not_false, Bool.false_eq_true, if_false, if_true]
    exact ⟨_, rfl⟩

/-- A task prepares its call under the affinity bound for it, and replies with status 1
wherever it stops. -/
theorem executeTask_prepare {sched : Scheduler} {p : Process ρ} {a : Affinity}
    (ha : boundAffinity sched message p.affinity = a) :
    match exec (prepare rt message a) p.session with
    | (.ok (some built), s) => ∃ events calls,
        match exec (callAndReply rt message built) ⟨s, a, events, p.output, calls⟩ with
        | (.ok success, q) => exec (executeTask rt sched message) p = (.ok success, q)
        | (.error _, q) => ∃ events, exec (executeTask rt sched message) p =
            (.ok false, { q with events, output := q.output ++ [endTask message.taskId 1] })
    | (_, s) => ∃ events, exec (executeTask rt sched message) p =
        (.ok false, ⟨s, a, events, p.output ++ [endTask message.taskId 1], p.calls⟩) := by
  subst ha
  obtain ⟨events, hbind⟩ := exec_bindTask sched message p
  let bound : Process ρ :=
    { p with affinity := boundAffinity sched message p.affinity, events := events }
  have hprepare := attemptTask_prepare rt message bound
  unfold executeTask
  rw [exec_bind_ok (show exec (bindTask sched message) p = (.ok _, bound) from hbind), exec_bind,
    exec_tryCatch, exec_map]
  rcases hrun : exec (prepare rt message bound.affinity) bound.session with ⟨e | _ | built, s⟩ <;>
    rw [hrun] at hprepare
  · obtain ⟨events', hattempt⟩ := hprepare
    rw [hattempt]
    exact ⟨_, rfl⟩
  · obtain ⟨events', hattempt⟩ := hprepare
    rw [hattempt]
    exact ⟨_, rfl⟩
  · obtain ⟨events', calls, hattempt⟩ := hprepare
    rw [hattempt]
    refine ⟨events', calls, ?_⟩
    rcases hcall : exec (callAndReply rt message built) _ with ⟨_ | success, q⟩
    · exact ⟨_, rfl⟩
    · rfl

end

section
variable {σ φ : Type} (code : RCode σ φ) (message : TaskMessage) (a : Affinity)

/-- Nothing stops the task before its call, and the call finds `f`. -/
def Reaches (t : Traced σ φ) (f : φ) : Prop :=
  ∃ built t', exec (prepare (runtime code) message a) t = (.ok (some built), t') ∧
    code.callee message.func built.args t'.session = some f

/-- Sourced in the global environment of `fresh`, the module leaves a function of the
task's name there. -/
def DefinesFunction (fresh s : RSession σ φ) : Prop :=
  ∃ t, exec (code.source message.moduleFile a) { s with globalEnv := fresh.globalEnv } =
      (.ok (), t) ∧ (t.function? message.func).isSome = true

/-- The name is bound in this session, and once the arguments are decoded the call by name
finds `f`. -/
def Binds (t : Traced σ φ) (f : φ) : Prop :=
  (t.session.globalEnv message.func).isSome = true ∧
    ∃ built t', exec (buildFunctionArgs (runtime code) a message.params) t = (.ok built, t') ∧
      code.callee message.func built.args t'.session = some f

/-- The module does not define the function, but it can be read and sourced, and a function
that earlier tasks left or that is attached is bound in the session it is sourced in. -/
def LeftOver (fresh : RSession σ φ) (t : Traced σ φ) : Prop :=
  ¬ DefinesFunction code message a fresh t.session ∧
    code.readable message.moduleFile t.session.rest = true ∧
      ∃ s f, exec (code.source message.moduleFile a) t.session = (.ok (), s) ∧
        Binds code message a { t with session := s } f

variable {code message} {a}

/-- The call is reached where the module can be read and sourced, and finds what the session
then binds. -/
theorem reaches_iff {t : Traced σ φ} {f : φ} : Reaches code message a t f ↔
    code.readable message.moduleFile t.session.rest = true ∧
      ∃ s, exec (code.source message.moduleFile a) t.session = (.ok (), s) ∧
        Binds code message a { t with session := s } f := by
  have hreadable : (runtime code).readable message.moduleFile t =
      code.readable message.moduleFile t.session.rest := rfl
  have hsource : exec ((runtime code).source message.moduleFile a) t =
      ((exec (code.source message.moduleFile a) t.session).1,
        { t with session := (exec (code.source message.moduleFile a) t.session).2 }) :=
    exec_untraced _ t
  have hexists (u : Traced σ φ) : exec ((runtime code).globalEnvExists message.func a) u =
      (.ok (u.session.globalEnv message.func).isSome, u) := rfl
  unfold Reaches prepare Binds
  cases hread : code.readable message.moduleFile t.session.rest with
  | false => simp [exec_bind, hreadable, hread]
  | true =>
    rcases hsourced : exec (code.source message.moduleFile a) t.session with ⟨e | ⟨⟩, s⟩
    · simp [exec_bind, hreadable, hread, hsource, hsourced]
    · cases hbound : (s.globalEnv message.func).isSome with
      | false => simp [exec_bind, hreadable, hread, hsource, hsourced, hexists, hbound]
      | true =>
        simp only [exec_bind, exec_get, hreadable, hread, hsource, hsourced, hexists, hbound,
          if_true, true_and]
        constructor
        · rintro ⟨built, t', hrun, hfound⟩
          refine ⟨s, rfl, hbound, built, t', ?_, hfound⟩
          rcases hbuilt : exec (buildFunctionArgs (runtime code) a message.params)
            { t with session := s } with ⟨e | args, u⟩ <;> rw [hbuilt] at hrun <;> cases hrun
          rfl
        · rintro ⟨s', hs', -, built, t', hrun, hfound⟩
          cases hs'
          refine ⟨built, t', ?_, hfound⟩
          rw [hrun]
          rfl

theorem keeps_untraced {α : Type} (fs : List φ) (x : SessionM (RSession σ φ) α) :
    Keeps (fun t : Traced σ φ => t.invoked = fs) (untraced x) := by
  intro t ht
  unfold Meets
  rw [exec_untraced]
  rcases (exec x t.session).1 with _ | _
  · exact ht
  · exact ht

theorem keeps_prepare (fs : List φ) :
    Keeps (fun t : Traced σ φ => t.invoked = fs) (prepare (runtime code) message a) := by
  apply keeps_get.bind
  intro t
  apply Keeps.ite
  · apply (keeps_untraced fs _).bind
    intro _
    apply (keeps_get.bind fun _ => .pure _).bind
    intro found
    exact .ite ((keeps_buildFunctionArgs fun _ => keeps_untraced fs _).bind fun _ => .pure _)
      (.pure _)
  · exact .pure _

theorem keeps_sendReturnValue (code : RCode σ φ) (fs : List φ) (params : List Text)
    (returnIndex : ℤ) (result : SEXP) :
    Keeps (fun p : Process (Traced σ φ) => p.session.invoked = fs)
      (sendReturnValue (runtime code) params returnIndex result) := by
  have hfile : Keeps (fun t : Traced σ φ => t.invoked = fs) (returnFile params returnIndex) :=
    (keeps_getParam _).bind fun _ => (keeps_getParam _).bind fun _ => .pure _
  have hserialize (path method : Text) :
      Keeps (fun p : Process (Traced σ φ) => p.session.invoked = fs)
        (inR ((runtime code).compssSerialize result path method)) :=
    keeps_inR fun _ => keeps_untraced fs _
  have hemit (type value : ℕ) : Keeps (fun p : Process (Traced σ φ) => p.session.invoked = fs)
      (emit type value) := fun _ hp => hp
  unfold sendReturnValue
  apply (keeps_inR fun _ => hfile).bind
  intro file
  apply (hemit 9000100 9).bind
  intro _
  apply ((hserialize _ _).tryCatch fun e => keeps_throw e).bind
  intro _
  apply (hemit 9000100 0).bind
  intro _
  exact keeps_get.bind fun _ => .pure _

/-- From the call on the executor invokes the function that is found; without one the task
raises and has not replied. -/
theorem callAndReply_invokes (built : FunctionArgs) (p : Process (Traced σ φ)) :
    Meets (callAndReply (runtime code) message built) p
      (fun _ q => ∃ f, code.callee message.func built.args p.session.session = some f ∧
        q.session.invoked = p.session.invoked ++ [f])
      (fun _ q => q.session.invoked = p.session.invoked ++
          (code.callee message.func built.args p.session.session).toList ∧
        (code.callee message.func built.args p.session.session = none → q.output = p.output)) := by
  obtain ⟨hinvoked, hmissing⟩ :=
    exec_callFunction code message.func built.args p.affinity p.session
  unfold callAndReply
  rw [meets_bind, meets_rethrow]
  refine meets_inR (fun result t hcall => ?_) fun e t hcall => ?_
  · rw [hcall] at hinvoked hmissing
    rcases hfound : code.callee message.func built.args p.session.session with _ | f
    · obtain ⟨e, he⟩ := hmissing hfound
      cases he
    · rw [hfound] at hinvoked
      simp only [meets_bind, meets_emit]
      split
      · have hsend := keeps_sendReturnValue code t.invoked message.params
          built.returnIndex result
        refine (hsend _ rfl).mono (fun _ q hq => ?_) fun _ q hq => ?_
        · exact ⟨f, rfl, hq.trans hinvoked⟩
        · exact ⟨hq.trans hinvoked, fun hnone => absurd hnone (Option.some_ne_none f)⟩
      · exact ⟨f, rfl, hinvoked⟩
  · rw [hcall] at hinvoked
    exact ⟨hinvoked, fun _ => rfl⟩

/-- A task invokes the function it reaches; if it reaches none it replies with status 1. -/
theorem executeTask_invokes {sched : Scheduler} {p : Process (Traced σ φ)}
    (ha : boundAffinity sched message p.affinity = a) :
    let q := (exec (executeTask (runtime code) sched message) p).2
    (∃ f, Reaches code message a p.session f ∧
        q.session.invoked = p.session.invoked ++ [f]) ∨
      (¬ ∃ f, Reaches code message a p.session f) ∧ q.session.invoked = p.session.invoked ∧
        q.output = p.output ++ [endTask message.taskId 1] := by
  intro q
  have hprepare := executeTask_prepare (runtime code) message ha
  have hkept : Keeps _ (prepare (runtime code) message a) := keeps_prepare p.session.invoked
  have hinvoked := hkept p.session rfl
  have hstopped {r : Except CppException (Option FunctionArgs)} {t : Traced σ φ}
      (hrun : exec (prepare (runtime code) message a) p.session = (r, t))
      (h : ∀ built, r = .ok (some built) → code.callee message.func built.args t.session = none) :
      ¬ ∃ f, Reaches code message a p.session f := by
    rintro ⟨f, built, t', hrun', hfound⟩
    cases hrun.symm.trans hrun'
    rw [h built rfl] at hfound
    contradiction
  rcases hrun : exec (prepare (runtime code) message a) p.session with ⟨e | _ | built, t⟩ <;>
    rw [hrun] at hprepare <;> rw [Meets, hrun] at hinvoked
  · obtain ⟨events, hprepare⟩ := hprepare
    simp only [q, hprepare]
    exact .inr ⟨hstopped hrun (fun _ h => by cases h), hinvoked, trivial⟩
  · obtain ⟨events, hprepare⟩ := hprepare
    simp only [q, hprepare]
    exact .inr ⟨hstopped hrun (fun _ h => by cases h), hinvoked, trivial⟩
  · obtain ⟨events, calls, hprepare⟩ := hprepare
    rcases (callAndReply_invokes built ⟨t, a, events, p.output, calls⟩).run with
      ⟨success, q', hcall, f, hfound, hq⟩ | ⟨e, q', hcall, hq, houtput⟩ <;> rw [hcall] at hprepare
    · simp only [q, hprepare]
      refine .inl ⟨f, ⟨built, t, hrun, hfound⟩, ?_⟩
      rw [hq, show t.invoked = _ from hinvoked]
    · obtain ⟨events', hprepare⟩ := hprepare
      simp only [q, hprepare]
      have hcallee : q'.session.invoked = t.invoked ++
          (code.callee message.func built.args t.session).toList := hq
      rw [show t.invoked = _ from hinvoked] at hcallee
      rcases hfound : code.callee message.func built.args t.session with _ | f
      · rw [hfound, Option.toList_none, List.append_nil] at hcallee
        refine .inr ⟨hstopped hrun fun built' h => ?_, hcallee, ?_⟩
        · cases h
          exact hfound
        · rw [show q'.output = p.output from houtput hfound]
      · rw [hfound] at hcallee
        exact .inl ⟨f, ⟨built, t, hrun, hfound⟩, hcallee⟩

/-- The task calls a function only if its module defines it, and fails if not. -/
def RunsOwnFunction (code : RCode σ φ) (sched : Scheduler) (message : TaskMessage)
    (fresh : RSession σ φ) (p : Process (Traced σ φ)) : Prop :=
  let q := (exec (executeTask (runtime code) sched message) p).2
  let defined := DefinesFunction code message (boundAffinity sched message p.affinity) fresh
    p.session.session
  (q.session.invoked ≠ p.session.invoked → defined) ∧
    (¬ defined → q.output = p.output ++ [endTask message.taskId 1])

/-- After any tasks, the next one runs the function of its own module or fails, exactly when
what they left in the session does not stand in for a function the module lacks. -/
theorem own_function_iff (code : RCode σ φ) (history : List Delivery) (sched : Scheduler)
    (message : TaskMessage) (fresh : Process (Traced σ φ)) :
    let used := (exec (runLoop (runtime code) history) fresh).2
    RunsOwnFunction code sched message fresh.session.session used ↔
      ¬ LeftOver code message (boundAffinity sched message used.affinity) fresh.session.session
        used.session := by
  intro used
  let t := (exec (executeTask (runtime code) sched message) used).2
  let a := boundAffinity sched message used.affinity
  have hinvokes : (∃ f, Reaches code message a used.session f ∧
      t.session.invoked = used.session.invoked ++ [f]) ∨
      (¬ ∃ f, Reaches code message a used.session f) ∧
        t.session.invoked = used.session.invoked ∧
        t.output = used.output ++ [endTask message.taskId 1] := executeTask_invokes rfl
  constructor
  · rintro ⟨hown, hfails⟩ ⟨hundefined, hread, s, f, hsource, hbinds⟩
    rcases hinvokes with ⟨f, -, hinvoked⟩ | ⟨hnone, -, -⟩
    · refine hundefined (hown ?_)
      rw [hinvoked]
      simp
    · exact hnone ⟨f, reaches_iff.mpr ⟨hread, s, hsource, hbinds⟩⟩
  · intro hleft
    rcases hinvokes with ⟨f, hreaches, -⟩ | ⟨-, hinvoked, houtput⟩
    · have hdefined : DefinesFunction code message (boundAffinity sched message used.affinity)
          fresh.session.session used.session.session := by
        by_contra hundefined
        obtain ⟨hread, s, hsource, hbinds⟩ := reaches_iff.mp hreaches
        exact hleft ⟨hundefined, hread, s, f, hsource, hbinds⟩
      exact ⟨fun _ => hdefined, fun hundefined => absurd hdefined hundefined⟩
    · exact ⟨fun hne => absurd hinvoked hne, fun _ => houtput⟩

end

/-- Two modules, of which `a.R` defines `helper` and `b.R` nothing; a function is named by
the module it comes from. -/
def twoModules : RCode Unit Text where
  readable _ _ := true
  source path _ :=
    if path = "a.R".toList then modify fun s =>
      { s with globalEnv := Function.update s.globalEnv "helper".toList (some (.func path)) }
    else pure ()
  attached _ _ := none
  apply _ _ _ := pure .nil
  compssUnserialize _ _ := pure .nil
  compssSerialize _ _ _ _ := pure ()
  stod _ := none

/-- A call of `helper` without arguments and result. -/
def helperTask (taskId moduleFile : Text) : TaskMessage where
  taskId := taskId
  sandbox := "sandbox".toList
  jobOut := "job.out".toList
  jobErr := "job.err".toList
  tracing := "false".toList
  debug := "false".toList
  moduleFile := moduleFile
  func := "helper".toList
  params := ["0", "-", "-", "false", "-", "0", "0"].map String.toList
  cpus := "-".toList
  gpus := "-".toList

/-- The line of such a call from `a.R`. -/
def helperLine : Text :=
  List.intercalate [' '] (["EXECUTE_TASK", "1", "sandbox", "job.out", "job.err", "false", "-",
    "false", "-", "-", "a.R", "helper", "-", "0", "-", "-", "false", "-", "0", "0", "-", "-",
    "-"].map String.toList)

theorem parse_helperLine :
    parseTaskMessage helperLine = some (helperTask "1".toList "a.R".toList) := by
  unfold parseTaskMessage helperLine
  rw [splitWhitespace_join (by decide)]
  rfl

theorem runLoop_helperLine (p : Process (Traced Unit Text)) :
    exec (runLoop (runtime twoModules) [⟨helperLine, some⟩]) p = exec (do
      emit 9000200 6
      emit 9000100 4
      let _success ← executeTask (runtime twoModules) some (helperTask "1".toList "a.R".toList)
      emit 9000100 0
      emit 9000200 0) p := by
  have hquit : helperLine ≠ quitLine := by decide
  have hnil : helperLine ≠ [] := by decide
  simp only [runLoop, handleLine, hquit, hnil, parse_helperLine, if_false, bind_pure_unit]

/-- The task from `b.R` runs the function that the task from `a.R` left behind, and reports
success. -/
theorem stale_function_runs :
    let fresh : Process (Traced Unit Text) :=
      ⟨⟨⟨fun _ => none, ()⟩, []⟩, ⟨none, none, none, none, none, {0}⟩, [], [], []⟩
    let used := (exec (runLoop (runtime twoModules) [⟨helperLine, some⟩]) fresh).2
    let task := helperTask "2".toList "b.R".toList
    let later := (exec (executeTask (runtime twoModules) some task) used).2
    later.session.invoked = ["a.R".toList, "a.R".toList] ∧
      later.output = ["END_TASK 1 0".toList, "END_TASK 2 0".toList] ∧
      ¬ RunsOwnFunction twoModules some task fresh.session.session used := by
  intro fresh used task later
  have hinvoked : later.session.invoked = ["a.R".toList, "a.R".toList] := by
    simp only [later, used, runLoop_helperLine]
    rfl
  have houtput : later.output = ["END_TASK 1 0".toList, "END_TASK 2 0".toList] := by
    simp only [later, used, runLoop_helperLine]
    rfl
  have hused : used.session.invoked = ["a.R".toList] := by
    simp only [used, runLoop_helperLine]
    rfl
  refine ⟨hinvoked, houtput, ?_⟩
  rintro ⟨hown, -⟩
  obtain ⟨t, hsource, hdefined⟩ := hown (by
    rw [show _ = _ from hinvoked, hused]
    decide)
  cases hsource
  contradiction

end RCompss.Executor
