import RCompss.Submission.Alignment

/-! A call that gives back a future: what it handed to the runtime, and the file that the future
names. -/
namespace RCompss.Submission
open RCompss.Library RCompss.Payload

/-- The file in a future made by the call itself. -/
def FutureObject.outputfile? : FutureObject → Option Text
  | .element outputfile | .list outputfile => some outputfile
  | .global => none

section
variable {r : Surroundings} {task : DecoratedTask} {values : List (Text × SEXP)}
  {arguments : Arguments} {result : TaskExecutionResult} {s s' : Session}

/-- The file of the return value, and the values that stand for the arguments. -/
theorem executeTask_return
    (h : rcompssExecuteTask r arguments task.filename task.serMethod true = .ok result) :
    ∃ method processed, (serMethods r.env task.serMethod)[1]? = some method ∧
      processedValues r ((serMethods r.env task.serMethod).headD []) 1 arguments =
        .ok processed ∧
      result.returnValueFilename =
        returnValueFilename r.masterWorkingDir method (r.uid 0).text := by
  unfold rcompssExecuteTask at h
  obtain ⟨executed, hexecuted, h⟩ := except_bind_eq_ok.mp h
  obtain ⟨processed, hprocessed, h⟩ := except_bind_eq_ok.mp h
  unfold executeTask at hexecuted
  cases hmethod : (serMethods r.env task.serMethod)[1]? with
  | none =>
    rw [hmethod] at hexecuted
    cases hexecuted
  | some method =>
    rw [hmethod] at hexecuted
    cases hexecuted
    refine ⟨method, processed, rfl, hprocessed, ?_⟩
    split at h
    · cases h
      rfl
    · cases h
      rfl

/-- What a call did that gave back a future. -/
structure Submitted (r : Surroundings) (task : DecoratedTask) (values : List (Text × SEXP))
    (future : FutureObject) (t : TaskSubmission) : Prop where
  returns : task.returnValue = true
  executed : ∃ arguments result clean, matchArguments task.fName task.formals values =
      .ok arguments ∧
    rcompssExecuteTask r arguments task.filename task.serMethod true = .ok result ∧
    cleanArguments result.processedArguments = .ok clean ∧
    t = taskSubmission task.fName clean result ∧
    ∀ path ∈ future.outputfile?, path = result.returnValueFilename
  marshalled : t.marshal = .ok ()

/-- A call gives back a future only after it handed its task to the runtime. -/
theorem exec_decorated_future {future : FutureObject}
    (h : exec (rcompssExecuteDecoratedTask r task values) s = (.ok (some future), s')) :
    ∃ t, s'.calls.getLast? = some (.processTask t) ∧ Submitted r task values future t := by
  unfold rcompssExecuteDecoratedTask at h
  obtain ⟨arguments, s₁, hmatched, h⟩ := exec_bind_eq_ok.mp h
  obtain ⟨result, s₂, hexecuted, h⟩ := exec_bind_eq_ok.mp h
  split at h
  · cases h
  obtain ⟨_, s₃, hregistered, h⟩ := exec_bind_eq_ok.mp h
  obtain ⟨clean, s₄, hcleaned, h⟩ := exec_bind_eq_ok.mp h
  obtain ⟨_, s₅, hprocess, h⟩ := exec_bind_eq_ok.mp h
  rw [exec_lift] at hmatched hexecuted hcleaned
  unfold processTask at hprocess
  obtain ⟨_, s₆, hcall, hmarshal⟩ := exec_bind_eq_ok.mp hprocess
  rw [exec_lift] at hmarshal
  cases hcall
  split at h
  next hreturn =>
    obtain ⟨_, s₇, hget, h⟩ := exec_bind_eq_ok.mp h
    cases hget
    obtain ⟨made, s₈, hmade, h⟩ := exec_bind_eq_ok.mp h
    rw [exec_lift] at hmade
    cases h
    obtain rfl : _ = s₅ := congrArg Prod.snd hmarshal
    obtain rfl : _ = s' := congrArg Prod.snd hmade
    refine ⟨taskSubmission task.fName clean result, by simp, ?_⟩
    refine ⟨hreturn, ⟨arguments, result, clean, congrArg Prod.fst hmatched, ?_,
      congrArg Prod.fst hcleaned, rfl, ?_⟩, congrArg Prod.fst hmarshal⟩
    · rw [← hreturn]
      exact congrArg Prod.fst hexecuted
    · have hfuture : futureObject _ task.returnType result.returnValueFilename = .ok future :=
        congrArg Prod.fst hmade
      intro path hpath
      unfold futureObject at hfuture
      split at hfuture
      · cases hfuture
        exact (Option.some.inj hpath).symm
      split at hfuture
      · cases hfuture
        exact (Option.some.inj hpath).symm
      split at hfuture
      · cases hfuture
        cases hpath
      · cases hfuture
  next => cases h

/-- What the runtime is told, when no argument is left a symbol: the rows of the arguments in
their order, and the row of the file that the future names. -/
theorem Submitted.rows {future : FutureObject} {t : TaskSubmission}
    (h : Submitted r task values future t)
    (hmatched : matchArguments task.fName task.formals values = .ok arguments)
    (hsymbols : ∀ arg ∈ arguments, staysSymbol r.inspect arg.2 = false) :
    ∃ method processed, (serMethods r.env task.serMethod)[1]? = some method ∧
      processedValues r ((serMethods r.env task.serMethod).headD []) 1 arguments =
        .ok processed ∧
      (∀ path ∈ future.outputfile?,
        path = returnValueFilename r.masterWorkingDir method (r.uid 0).text) ∧
      ∀ i, submittedRow t i = (List.zipWith (inputRow r.inspect) arguments processed ++
        [returnRow r method])[i]? := by
  obtain ⟨hreturn, ⟨_, result, clean, hmatched', hexecuted, hcleaned, rfl, hfuture⟩, -⟩ := h
  cases hmatched.symm.trans hmatched'
  obtain ⟨method, processed, hmethod, hprocessed, hfile⟩ := executeTask_return hexecuted
  refine ⟨method, processed, hmethod, hprocessed,
    fun path hpath => (hfuture path hpath).trans hfile, ?_⟩
  obtain ⟨rows, hrows, hresult⟩ := rows_of_executeTask (hreturn ▸ hexecuted)
  have hsplit : rows = List.zipWith (inputRow r.inspect) arguments processed ++
      [returnRow r method] := by
    unfold computedRows at hrows
    obtain ⟨processed', hprocessed', hrows⟩ := except_bind_eq_ok.mp hrows
    cases hprocessed.symm.trans hprocessed'
    unfold withReturnRow at hrows
    rw [if_pos hreturn, hmethod] at hrows
    cases hrows
    rfl
  have hlast : SymbolsLast r.inspect task.returnValue arguments := by
    refine ⟨List.Pairwise.imp_of_mem (R := fun _ _ => True) ?_ (List.pairwise_of_forall
      fun _ _ => trivial), fun _ => hsymbols⟩
    intro a b ha _ _ hsymbol
    rw [hsymbols a ha] at hsymbol
    cases hsymbol
  have hclean : clean = rows.map ParameterRow.value := by
    rw [clean_eq_filter hcleaned, hresult.values, filter_symbols_return hrows hreturn hlast]
  intro i
  rw [(hresult.hasRows task.fName clean).submittedRow, hclean, List.getElem?_map, ← hsplit]
  cases rows[i]? <;> rfl

end

end RCompss.Submission
