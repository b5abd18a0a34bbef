import RCompss.Submission.DecoratedTask

/-! A call of a decorated function: the task it submits and what it answers. -/
namespace RCompss.Submission
open RCompss.Library RCompss.Payload

/-- A task that got through `process_task` to the runtime. -/
def RuntimeCall.submitted : RuntimeCall → Option TaskSubmission
  | .processTask t =>
      match t.marshal with
      | .ok _ => some t
      | .error _ => none
  | .registerCoreElement _ => none

def Session.submitted (s : Session) : List TaskSubmission :=
  s.calls.filterMap RuntimeCall.submitted

/-- What a call answers for a task: with a return value, the file that is the last parameter. -/
inductive Answers (task : DecoratedTask) (t : TaskSubmission) : Option FutureObject → Prop
  | nothing (noReturn : task.returnValue = false) : Answers task t none
  | element {path : Text} (returns : task.returnValue = true)
      (last : t.values.getLast? = some (.path path)) : Answers task t (some (.element path))
  | list {path : Text} (returns : task.returnValue = true)
      (last : t.values.getLast? = some (.path path)) : Answers task t (some (.list path))

/-- One task is submitted and the call returns, or an R error is raised and none is. -/
def SubmitsOrThrows (r : Surroundings) (task : DecoratedTask) (values : List (Text × SEXP))
    (s : Session) : Prop :=
  Meets (decoratedFunction r task values) s
    (fun future u => ∃ t, u.submitted = s.submitted ++ [t] ∧ Answers task t future)
    fun e u => (∃ message, e = .raised message) ∧ u.submitted = s.submitted

/-- What `register` raises, unless the function was registered before. -/
def registration (task : DecoratedTask) (typeArgsPath : Text) (globals : List Text) :
    Except Failure Unit := do
  let marker ← registerMarker task.fName task.constraints
  if marker ∈ globals then
    return ()
  else
    let _ ← coreElement task typeArgsPath
    return ()

/-- The task a call comes to, or what stops it before. -/
def taskOf (r : Surroundings) (task : DecoratedTask) (values : List (Text × SEXP))
    (globals : List Text) : Except Failure TaskSubmission := do
  namedOnce values
  let arguments ← matchArguments task.fName task.formals values
  let result ← rcompssExecuteTask r arguments task.filename task.serMethod task.returnValue
  registration task (r.workingDir ++ '/' :: result.typeArgsPath) globals
  let clean ← cleanArguments result.processedArguments
  (taskSubmission task.fName clean result).marshal
  return taskSubmission task.fName clean result

/-- Some step before the submission raises an R error. -/
def Refuses (r : Surroundings) (task : DecoratedTask) (values : List (Text × SEXP))
    (s : Session) : Prop :=
  ∃ message, taskOf r task values s.globals = .error (.raised message)

/-- A future can be made for the return value. -/
structure DecoratedTask.Returnable (task : DecoratedTask) : Prop where
  returnType : task.returnType = "element".toList ∨ task.returnType = "list".toList
  serMethod : task.serMethod ≠ []

theorem ok_bind {α β : Type} (a : α) (f : α → Except Failure β) : (.ok a >>= f) = f a := rfl

theorem submitted_append (s : Session) (globals : List Text) (c : RuntimeCall) :
    (⟨globals, s.calls ++ [c]⟩ : Session).submitted = s.submitted ++ c.submitted.toList := by
  rw [Session.submitted, List.filterMap_append]
  rcases hc : c.submitted with _ | t
  · rw [List.filterMap_cons_none hc]
    rfl
  · rw [List.filterMap_cons_some hc]
    rfl

/-- `register` raises what `registration` does, and submits nothing. -/
theorem register_registration (task : DecoratedTask) (path : Text) (s : Session) :
    Meets (register task path) s
      (fun _ u => registration task path s.globals = .ok () ∧ u.submitted = s.submitted)
      fun e u => registration task path s.globals = .error e ∧ u.submitted = s.submitted := by
  unfold register registration
  rw [meets_bind]
  refine meets_lift (fun marker hmarker => ?_) fun e he => ?_
  · rw [hmarker, ok_bind, meets_bind, meets_get]
    split
    next hnew =>
      rw [meets_bind]
      refine meets_lift (fun element helement => ?_) fun e he => ?_
      · rw [helement, meets_bind, meets_call, meets_modify]
        refine ⟨rfl, (submitted_append s _ _).trans ?_⟩
        exact List.append_nil _
      · rw [he]
        exact ⟨rfl, rfl⟩
    next hknown =>
      rw [if_pos (not_not.mp hknown)]
      exact ⟨rfl, rfl⟩
  · rw [he]
    exact ⟨rfl, rfl⟩

theorem processTask_submitted (t : TaskSubmission) (s : Session) :
    Meets (processTask t) s
      (fun _ u => t.marshal = .ok () ∧ u.submitted = s.submitted ++ [t])
      fun e u => t.marshal = .error e ∧ u.submitted = s.submitted := by
  rw [processTask, meets_bind, meets_call]
  refine meets_lift (fun _ hok => ⟨hok, ?_⟩) fun e he => ⟨he, ?_⟩
  · rw [submitted_append, RuntimeCall.submitted, hok]
    rfl
  · rw [submitted_append, RuntimeCall.submitted, he]
    exact List.append_nil _

/-- What processing leaves for the return value: its file at the end, of type 10. -/
theorem executed_return {r : Surroundings} {task : DecoratedTask} {arguments : Arguments}
    {result : TaskExecutionResult}
    (h : rcompssExecuteTask r arguments task.filename task.serMethod task.returnValue =
      .ok result) :
    result.argumentsType = (arguments.map fun arg => (processSingleArgument r.inspect arg.2).1) ++
        (if task.returnValue = true then [10] else []) ∧
      (task.returnValue = true →
        result.processedArguments.getLast? = some (.path result.returnValueFilename)) := by
  unfold rcompssExecuteTask executeTask at h
  obtain ⟨executed, hexecuted, h⟩ := except_bind_eq_ok.mp h
  obtain ⟨processed, -, h⟩ := except_bind_eq_ok.mp h
  cases hreturn : task.returnValue <;> simp only [hreturn] at hexecuted h
  · cases hexecuted
    cases h
    refine ⟨?_, nofun⟩
    simp
  · rcases hmethod : (serMethods r.env task.serMethod)[1]? with _ | method
    · rw [hmethod] at hexecuted
      cases hexecuted
    · rw [hmethod] at hexecuted
      cases hexecuted
      cases h
      refine ⟨?_, fun _ => List.getLast?_concat⟩
      simp

/-- The return file is the last parameter. -/
theorem getLast_clean {result : TaskExecutionResult} {clean : List ProcessedValue} {path : Text}
    (hclean : cleanArguments result.processedArguments = .ok clean)
    (hlast : result.processedArguments.getLast? = some (.path path)) :
    clean.getLast? = some (.path path) := by
  obtain ⟨inputs, hinputs⟩ := List.getLast?_eq_some_iff.mp hlast
  unfold cleanArguments at hclean
  dsimp only at hclean
  split at hclean
  · contradiction
  · rw [← Except.ok.inj hclean, hinputs, List.filter_append]
    exact List.getLast?_concat

/-- A computation ends as `y` tells: it raises what stops `y` and submits nothing, or it
submits the task that is `y`, and then only the future object can be missing. -/
def EndsAs (task : DecoratedTask) (before : List TaskSubmission)
    (y : Except Failure TaskSubmission) (x : SubmitM (Option FutureObject)) (s : Session) : Prop :=
  Meets x s
    (fun future u => ∃ t, y = .ok t ∧ u.submitted = before ++ [t] ∧
      ((task.returnValue = false ∧ future = none) ∨
        task.returnValue = true ∧ ∃ path globals f, t.values.getLast? = some (.path path) ∧
          futureObject globals task.returnType path = .ok f ∧ future = some f))
    fun e u => (y = .error e ∧ u.submitted = before) ∨
      ∃ t, y = .ok t ∧ u.submitted = before ++ [t] ∧ task.returnValue = true ∧
        ∃ path globals, futureObject globals task.returnType path = .error e

namespace EndsAs
variable {task : DecoratedTask} {before : List TaskSubmission} {s : Session} {α : Type}

/-- A step that raises or returns, and does nothing else. -/
theorem lift {x : Except Failure α} {f : α → SubmitM (Option FutureObject)}
    {g : α → Except Failure TaskSubmission} (hs : s.submitted = before)
    (h : ∀ a, x = .ok a → EndsAs task before (g a) (f a) s) :
    EndsAs task before (x >>= g) (liftM x >>= f) s := by
  unfold EndsAs
  rw [meets_bind]
  refine meets_lift (fun a ha => ?_) fun e he => .inl ?_
  · rw [ha]
    exact h a ha
  · rw [he]
    exact ⟨rfl, hs⟩

/-- A step that submits nothing, and raises what `x` does. -/
theorem seq {x : Except Failure Unit} {z : SubmitM Unit} {f : SubmitM (Option FutureObject)}
    {g : Except Failure TaskSubmission}
    (hz : Meets z s (fun _ u => x = .ok () ∧ u.submitted = before)
      fun e u => x = .error e ∧ u.submitted = before)
    (h : ∀ u : Session, u.submitted = before → EndsAs task before g f u) :
    EndsAs task before (x >>= fun _ => g) (z >>= fun _ => f) s := by
  unfold EndsAs
  rw [meets_bind]
  refine hz.mono (fun _ u hu => ?_) fun e u hu => .inl ?_
  · rw [hu.1]
    exact h u hu.2
  · rw [hu.1]
    exact ⟨rfl, hu.2⟩

/-- The submission itself, and the answer to it. -/
theorem submit {t : TaskSubmission} {path : Text} (hs : s.submitted = before)
    (hlast : task.returnValue = true → t.values.getLast? = some (.path path)) :
    EndsAs task before (t.marshal >>= fun _ => .ok t)
      (processTask t >>= fun _ =>
        if task.returnValue = true then do
          let s ← get
          let future ← liftM (futureObject s.globals task.returnType path)
          return some future
        else return none) s := by
  unfold EndsAs
  rw [meets_bind]
  refine (processTask_submitted t s).mono (fun _ u hu => ?_) fun e u hu => .inl ?_
  · obtain ⟨hmarshal, hsubmitted⟩ := hu
    rw [hs] at hsubmitted
    rw [hmarshal]
    split
    next hreturn =>
      rw [meets_bind, meets_get, meets_bind]
      refine meets_lift (fun f hf => ?_) fun e he => .inr ?_
      · exact ⟨t, rfl, hsubmitted, .inr ⟨hreturn, path, _, f, hlast hreturn, hf, rfl⟩⟩
      · exact ⟨t, rfl, hsubmitted, hreturn, path, _, he⟩
    next hreturn =>
      exact ⟨t, rfl, hsubmitted, .inl ⟨Bool.eq_false_of_not_eq_true hreturn, rfl⟩⟩
  · rw [hu.1]
    exact ⟨rfl, hu.2.trans hs⟩

end EndsAs

/-- How a call ends, by the task it comes to. -/
theorem decorated_ends (r : Surroundings) (task : DecoratedTask) (values : List (Text × SEXP))
    (s : Session) (hinfo : task.infoOnly = false) :
    EndsAs task s.submitted (taskOf r task values s.globals) (decoratedFunction r task values)
      s := by
  refine EndsAs.lift rfl fun _ _ => ?_
  refine EndsAs.lift rfl fun arguments _ => ?_
  refine EndsAs.lift rfl fun result hprocessed => ?_
  rw [if_neg (by rw [hinfo]; decide)]
  refine EndsAs.seq (register_registration task _ s) fun u hu => ?_
  refine EndsAs.lift hu fun clean hclean => ?_
  exact EndsAs.submit hu fun hreturn =>
    getLast_clean hclean ((executed_return hprocessed).2 hreturn)

/-- What the code outside of the binding may do: it raises R errors, and `typeof` gives
the names of R's types. -/
structure Surroundings.Documented (r : Surroundings) : Prop where
  outputfile : ∀ v, r.outputfile v ≠ .error .undefined
  serialize : ∀ v path method, r.serialize v path method ≠ .error .undefined
  typeof : ∀ v i, r.inspect v = some i → i.rType ∉ ["CHAR", "BYTE", "SHORT"].map String.toList

section
variable {α β : Type}

theorem bind_defined {x : Except Failure α} {f : α → Except Failure β}
    (hx : x ≠ .error .undefined) (hf : ∀ a, x = .ok a → f a ≠ .error .undefined) :
    (x >>= f) ≠ .error .undefined := by
  cases x with
  | error e => exact fun h => hx (congrArg Except.error (Except.error.inj h))
  | ok a => exact hf a rfl

theorem pure_defined (a : α) : (pure a : Except Failure α) ≠ .error .undefined := nofun

theorem mapM_defined {f : α → Except Failure β} (hf : ∀ a, f a ≠ .error .undefined) (as : List α) :
    as.mapM f ≠ .error .undefined := by
  induction as with
  | nil => exact pure_defined _
  | cons a as ih =>
      rw [List.mapM_cons]
      exact bind_defined (hf a) fun _ _ => bind_defined ih fun _ _ => pure_defined _

end

theorem registerMarker_defined (fName : Text) (cs : Constraints) :
    registerMarker fName cs ≠ .error .undefined := by
  unfold registerMarker
  split
  · exact pure_defined _
  · split <;> nofun

theorem elementAsString_defined (elements : List (Option Text)) :
    elementAsString elements ≠ .error .undefined := by
  unfold elementAsString
  split <;> nofun

theorem coreElement_defined (task : DecoratedTask) (path : Text) :
    coreElement task path ≠ .error .undefined := by
  have hprint (value : FieldValue) : value.print ≠ .error .undefined := by
    unfold FieldValue.print
    split
    case h_2 elements => exact elementAsString_defined elements
    all_goals nofun
  have hentry (entry : ProcessorEntry) : printEntry entry ≠ .error .undefined := by
    cases entry with
    | processor fields =>
        refine bind_defined (mapM_defined (fun field => ?_) fields) fun _ _ => pure_defined _
        exact bind_defined (hprint field.2) fun _ _ => pure_defined _
    | unnamed => exact nofun
    | scalar text => exact pure_defined _
  have hvalue (value : ConstraintValue) : printValue value ≠ .error .undefined := by
    cases value with
    | text elements => exact elementAsString_defined elements
    | list entries => exact bind_defined (mapM_defined hentry _) fun _ _ => pure_defined _
  have hstring (cs : Constraints) : constraintString cs ≠ .error .undefined := by
    refine bind_defined (mapM_defined (fun c => ?_) cs) fun _ _ => pure_defined _
    exact bind_defined (hvalue c.2) fun _ _ => pure_defined _
  have hlocal : implLocal task.constraints ≠ .error .undefined := by
    unfold implLocal
    split
    · exact pure_defined _
    · split <;> nofun
  exact bind_defined hlocal fun _ _ => bind_defined (hstring _) fun _ _ => pure_defined _

theorem registration_defined (task : DecoratedTask) (path : Text) (globals : List Text) :
    registration task path globals ≠ .error .undefined := by
  refine bind_defined (registerMarker_defined _ _) fun marker _ => ?_
  split
  · exact pure_defined _
  · exact bind_defined (coreElement_defined task path) fun _ _ => pure_defined _

theorem length_serMethods {env : Option Text} {serMethod : List CharSXP} (h : serMethod ≠ []) :
    1 < (serMethods env serMethod).length := by
  unfold serMethods
  match serMethod, h with
  | [_], _ => simp
  | _ :: _ :: _, _ => simp

theorem executeTask_defined {inspect : Inspect} {arguments : Arguments} {dir filename : Text}
    {methods : List Text} {returnValue : Bool} {uid : UID}
    (h : returnValue = true → 1 < methods.length) :
    executeTask inspect arguments dir filename methods returnValue uid ≠ .error .undefined := by
  unfold executeTask
  dsimp only
  split
  next hreturn =>
    rw [List.getElem?_eq_getElem (h hreturn)]
    exact pure_defined _
  next => exact pure_defined _

theorem processedValues_defined {r : Surroundings} (hr : r.Documented) (method : Text) (i : ℕ)
    (arguments : Arguments) : processedValues r method i arguments ≠ .error .undefined := by
  induction arguments generalizing i with
  | nil => exact pure_defined _
  | cons arg arguments ih =>
      have hvalue : processedValue r method i arg ≠ .error .undefined := by
        unfold processedValue
        dsimp only
        split
        · split
          · exact pure_defined _
          · exact bind_defined (hr.serialize _ _ _) fun _ _ => pure_defined _
        · split
          · exact bind_defined (hr.outputfile _) fun _ _ => pure_defined _
          · exact pure_defined _
      exact bind_defined hvalue fun _ _ => bind_defined (ih (i + 1)) fun _ _ => pure_defined _

theorem rcompssExecuteTask_defined {r : Surroundings} (hr : r.Documented) (task : DecoratedTask)
    (arguments : Arguments) (hmethods : task.returnValue = true → task.serMethod ≠ []) :
    rcompssExecuteTask r arguments task.filename task.serMethod task.returnValue ≠
      .error .undefined := by
  unfold rcompssExecuteTask
  refine bind_defined (executeTask_defined fun h => length_serMethods (hmethods h)) fun _ _ => ?_
  refine bind_defined (processedValues_defined hr _ _ _) fun _ _ => ?_
  split <;> exact pure_defined _

theorem type_marshalled {r : Surroundings} (hr : r.Documented) (v : SEXP) :
    (processSingleArgument r.inspect v).1 ∈ [0, 4, 7, 8, 10] := by
  unfold processSingleArgument
  rcases hv : r.inspect v with _ | i
  · decide
  have htype := hr.typeof v i hv
  dsimp only
  unfold processArgument
  split
  · unfold mapType
    split_ifs with hlogical hchar hbyte hshort
    · decide
    · exact absurd (by rw [hchar]; decide) htype
    · exact absurd (by rw [hbyte]; decide) htype
    · exact absurd (by rw [hshort]; decide) htype
    all_goals decide
  · split <;> decide

/-- Of these types a parameter is marshalled or R raises. -/
theorem marshalParameters_defined (values : List ProcessedValue) {compssTypes : List ℕ}
    (htypes : ∀ compssType ∈ compssTypes, compssType ∈ [0, 4, 7, 8, 10]) :
    marshalParameters values compssTypes ≠ .error .undefined := by
  induction values generalizing compssTypes with
  | nil => nofun
  | cons v values ih =>
      cases compssTypes with
      | nil => nofun
      | cons compssType compssTypes =>
          obtain ⟨htype, htypes⟩ := List.forall_mem_cons.mp htypes
          have hnumber (target : String) : asNumber target v ≠ .error .undefined := by
            unfold asNumber
            split
            · nofun
            · split <;> nofun
          have hstring : asString v ≠ .error .undefined := by
            unfold asString
            split <;> nofun
          have hparameter : marshalParameter v compssType ≠ .error .undefined := by
            unfold marshalParameter
            split
            · exact hnumber _
            · split
              · exact hnumber _
              · split
                · exact hstring
                · simp only [List.mem_cons, List.not_mem_nil, or_false] at htype
                  omega
          exact bind_defined hparameter fun _ _ => ih htypes

/-- Every step before the submission returns or raises an R error. -/
theorem taskOf_defined {r : Surroundings} (hr : r.Documented) (task : DecoratedTask)
    (values : List (Text × SEXP)) (globals : List Text)
    (hmethods : task.returnValue = true → task.serMethod ≠ []) :
    taskOf r task values globals ≠ .error .undefined := by
  have hnamed : namedOnce values ≠ .error .undefined := by
    unfold namedOnce
    split <;> nofun
  have hmatched : matchArguments task.fName task.formals values ≠ .error .undefined := by
    unfold matchArguments
    dsimp only
    split
    · nofun
    · split
      · nofun
      · split <;> nofun
  have hclean (processed : List ProcessedValue) : cleanArguments processed ≠ .error .undefined := by
    unfold cleanArguments
    dsimp only
    split <;> nofun
  refine bind_defined hnamed fun _ _ => bind_defined hmatched fun arguments _ => ?_
  have hexecuted := rcompssExecuteTask_defined hr task arguments hmethods
  refine bind_defined hexecuted fun result hresult => ?_
  refine bind_defined (registration_defined _ _ _) fun _ _ => ?_
  refine bind_defined (hclean _) fun clean _ => ?_
  refine bind_defined (marshalParameters_defined _ ?_) fun _ _ => pure_defined _
  intro compssType hmem
  have htypes : compssType ∈ result.argumentsType := hmem
  rw [(executed_return hresult).1, List.mem_append] at htypes
  rcases htypes with hinput | hreturn
  · obtain ⟨arg, -, rfl⟩ := List.mem_map.mp hinput
    exact type_marshalled hr arg.2
  · split at hreturn
    · rw [List.mem_singleton.mp hreturn]
      decide
    · contradiction

/-- Without the method for its output no call with a return value gets to a task. -/
theorem taskOf_serMethod {r : Surroundings} {task : DecoratedTask} {values : List (Text × SEXP)}
    {globals : List Text} {t : TaskSubmission} (h : taskOf r task values globals = .ok t)
    (hreturn : task.returnValue = true) : task.serMethod ≠ [] := by
  intro hmethods
  unfold taskOf at h
  obtain ⟨-, -, h⟩ := except_bind_eq_ok.mp h
  obtain ⟨arguments, -, h⟩ := except_bind_eq_ok.mp h
  obtain ⟨result, hresult, -⟩ := except_bind_eq_ok.mp h
  unfold rcompssExecuteTask at hresult
  obtain ⟨executed, hexecuted, -⟩ := except_bind_eq_ok.mp hresult
  unfold executeTask at hexecuted
  rw [hmethods, hreturn] at hexecuted
  contradiction

theorem futureObject_known (globals : List Text) {returnType : Text} (path : Text)
    (h : returnType = "element".toList ∨ returnType = "list".toList) :
    futureObject globals returnType path = .ok (.element path) ∨
      futureObject globals returnType path = .ok (.list path) := by
  unfold futureObject
  split
  next => exact .inl rfl
  next hno =>
    rw [if_pos (h.resolve_left hno)]
    exact .inr rfl

theorem futureObject_names {globals : List Text} {returnType path : Text} {f : FutureObject}
    (h : futureObject globals returnType path = .ok f) (hf : f ≠ .global) :
    returnType = "element".toList ∨ returnType = "list".toList := by
  unfold futureObject at h
  split at h
  next helement => exact .inl helement
  next =>
    split at h
    next hlist => exact .inr hlist
    next =>
      split at h
      · exact absurd (Except.ok.inj h).symm hf
      · contradiction

/-- What is raised before the submission is all that happens. -/
theorem submitsOrThrows_of_refuses {r : Surroundings} {task : DecoratedTask}
    (hinfo : task.infoOnly = false) {values : List (Text × SEXP)} {s : Session}
    (h : Refuses r task values s) : SubmitsOrThrows r task values s := by
  obtain ⟨message, hrefused⟩ := h
  refine (decorated_ends r task values s hinfo).mono (fun future u hu => ?_) fun e u hu => ?_
  · obtain ⟨t, ht, -⟩ := hu
    rw [hrefused] at ht
    contradiction
  · rcases hu with ⟨hstop, hnothing⟩ | ⟨t, ht, -⟩
    · rw [hrefused] at hstop
      exact ⟨⟨message, (Except.error.inj hstop).symm⟩, hnothing⟩
    · rw [hrefused] at ht
      contradiction

/-- Once a task is submitted, the call can answer for it. -/
theorem submitsOrThrows_of_answers {r : Surroundings} (hr : r.Documented) {task : DecoratedTask}
    (hinfo : task.infoOnly = false) (values : List (Text × SEXP)) (s : Session)
    (h : task.returnValue = true → task.Returnable) : SubmitsOrThrows r task values s := by
  have hdefined : taskOf r task values s.globals ≠ .error .undefined :=
    taskOf_defined hr task values _ fun hreturn => (h hreturn).serMethod
  refine (decorated_ends r task values s hinfo).mono (fun future u hu => ?_) fun e u hu => ?_
  · obtain ⟨t, -, hone, hfuture⟩ := hu
    refine ⟨t, hone, ?_⟩
    rcases hfuture with ⟨hreturn, rfl⟩ | ⟨hreturn, path, globals, f, hlast, hf, rfl⟩
    · exact .nothing hreturn
    · rcases futureObject_known globals path (h hreturn).returnType with hf' | hf'
      · cases hf.symm.trans hf'
        exact .element hreturn hlast
      · cases hf.symm.trans hf'
        exact .list hreturn hlast
  · rcases hu with ⟨hstop, hnothing⟩ | ⟨t, -, -, hreturn, path, globals, hf⟩
    · refine ⟨?_, hnothing⟩
      cases e with
      | raised message => exact ⟨message, rfl⟩
      | undefined => exact absurd hstop hdefined
    · rcases futureObject_known globals path (h hreturn).returnType with hf' | hf' <;>
      · rw [hf'] at hf
        contradiction

/-- A call that submits or throws, and has a value to return, is refused or answers with a
future of that value. -/
theorem SubmitsOrThrows.answers {r : Surroundings} {task : DecoratedTask}
    (hinfo : task.infoOnly = false) {values : List (Text × SEXP)} {s : Session}
    (h : SubmitsOrThrows r task values s) (hreturn : task.returnValue = true) :
    task.Returnable ∨ Refuses r task values s := by
  rcases (h.and (decorated_ends r task values s hinfo)).run with
    ⟨future, u, -, hu⟩ | ⟨e, u, -, hu⟩
  · obtain ⟨⟨_, -, hanswers⟩, t, ht, -, hfuture⟩ := hu
    rcases hfuture with ⟨hnone, -⟩ | ⟨-, path, globals, f, -, hf, rfl⟩
    · rw [hreturn] at hnone
      contradiction
    · refine .inl ⟨futureObject_names hf ?_, taskOf_serMethod ht hreturn⟩
      rintro rfl
      cases hanswers
  · obtain ⟨⟨⟨message, rfl⟩, hnothing⟩, hstop | ⟨t, -, hone, -⟩⟩ := hu
    · exact .inr ⟨message, hstop.1⟩
    · exact absurd (hnothing.symm.trans hone) (by simp)

/-- A call submits or throws when it has nothing to return, when a future can be made for
what it returns, or when it is refused before the submission, and in no other case. -/
theorem submitsOrThrows_iff {r : Surroundings} (hr : r.Documented) {task : DecoratedTask}
    (hinfo : task.infoOnly = false) (values : List (Text × SEXP)) (s : Session) :
    SubmitsOrThrows r task values s ↔
      task.returnValue = false ∨ task.Returnable ∨ Refuses r task values s := by
  constructor
  · intro h
    cases hreturn : task.returnValue with
    | false => exact .inl rfl
    | true => exact .inr (h.answers hinfo hreturn)
  · rintro (hnone | hreturnable | hrefuses)
    · exact submitsOrThrows_of_answers hr hinfo values s fun hreturn => by
        rw [hnone] at hreturn
        contradiction
    · exact submitsOrThrows_of_answers hr hinfo values s fun _ => hreturnable
    · exact submitsOrThrows_of_refuses hinfo hrefuses

theorem plain_documented : plainSurroundings.Documented where
  outputfile _ := nofun
  serialize _ _ _ := nofun
  typeof v i h := by
    have htype : i.rType = "double".toList := by
      unfold plainSurroundings at h
      dsimp only at h
      split at h
      · cases h
        rfl
      · contradiction
    rw [htype]
    decide

/-- The doubles 2 and 0. -/
def addValues : List (Text × SEXP) :=
  [([], .atom (.real [0x4000000000000000#64]) []), ([], .atom (.real [0#64]) [])]

theorem add_submits : SubmitsOrThrows plainSurroundings addTask addValues ⟨[], []⟩ :=
  (submitsOrThrows_iff plain_documented rfl _ _).mpr (.inr (.inl ⟨.inr rfl, by decide⟩))

/-- `add`, decorated with a return type of its own. -/
def vectorTask : DecoratedTask := { addTask with returnType := "vector".toList }

/-- Its task is submitted before the call raises. -/
theorem vector_submits_and_throws :
    ¬SubmitsOrThrows plainSurroundings vectorTask addValues ⟨[], []⟩ := by
  intro h
  have hnothing : (exec (decoratedFunction plainSurroundings vectorTask addValues)
      ⟨[], []⟩).2.submitted = [] := h.2
  exact absurd (congrArg List.length hnothing) (by decide)

end RCompss.Submission
