import RCompss.Library.Filter
import RCompss.Submission.DecoratedTask

/-! The parallel vectors of a submitted task. -/
namespace RCompss.Submission
open RCompss.Library RCompss.Payload

/-- What is handed over for one parameter. -/
structure ParameterRow where
  value : ProcessedValue
  name : Text
  compssType : ℕ
  compssDirection : ℕ
  compssStream : ℕ
  compssPrefix : Text
  contentType : Text
  weight : Text
  keepRename : ℕ

/-- The row of an input argument. -/
def inputRow (inspect : Inspect) (arg : Text × SEXP) (value : ProcessedValue) : ParameterRow where
  value := value
  name := arg.1
  compssType := (processSingleArgument inspect arg.2).1
  compssDirection := 0
  compssStream := 3
  compssPrefix := "null".toList
  contentType := (processSingleArgument inspect arg.2).2
  weight := "1".toList
  keepRename := 0

/-- The row of the return value: an output file that keeps its name. -/
def returnRow (r : Surroundings) (method : Text) : ParameterRow where
  value := .path (returnValueFilename r.masterWorkingDir method (r.uid 0).text)
  name := buildReturnValueName method
  compssType := 10
  compssDirection := 1
  compssStream := 3
  compssPrefix := "null".toList
  contentType := []
  weight := "1".toList
  keepRename := 1

def withReturnRow (r : Surroundings) (methods : List Text) (returnValue : Bool)
    (inputs : List ParameterRow) : Except Failure (List ParameterRow) :=
  if returnValue then
    match methods[1]? with
    | none => .error .undefined
    | some method => .ok (inputs ++ [returnRow r method])
  else .ok inputs

/-- The rows of a call: of each argument in order, and of the return value. -/
def computedRows (r : Surroundings) (task : DecoratedTask) (arguments : Arguments) :
    Except Failure (List ParameterRow) := do
  let methods := serMethods r.env task.serMethod
  let processed ← processedValues r (methods.headD []) 1 arguments
  withReturnRow r methods task.returnValue
    (List.zipWith (inputRow r.inspect) arguments processed)

/-- The entries at one index of a submission. -/
def submittedRow (t : TaskSubmission) (i : ℕ) : Option ParameterRow := do
  return {
    value := ← t.values[i]?
    name := ← t.names[i]?
    compssType := ← t.compssTypes[i]?
    compssDirection := ← t.compssDirections[i]?
    compssStream := ← t.compssStreams[i]?
    compssPrefix := ← t.compssPrefixes[i]?
    contentType := ← t.contentTypes[i]?
    weight := ← t.weights[i]?
    keepRename := ← t.keepRenames[i]? }

/-- A submission with the vectors of `rows`, but with these values. -/
structure HasRows (t : TaskSubmission) (rows : List ParameterRow) (values : List ProcessedValue) :
    Prop where
  values : t.values = values
  names : t.names = rows.map ParameterRow.name
  compssTypes : t.compssTypes = rows.map ParameterRow.compssType
  compssDirections : t.compssDirections = rows.map ParameterRow.compssDirection
  compssStreams : t.compssStreams = rows.map ParameterRow.compssStream
  compssPrefixes : t.compssPrefixes = rows.map ParameterRow.compssPrefix
  contentTypes : t.contentTypes = rows.map ParameterRow.contentType
  weights : t.weights = rows.map ParameterRow.weight
  keepRenames : t.keepRenames = rows.map ParameterRow.keepRename

theorem HasRows.submittedRow {t : TaskSubmission} {rows : List ParameterRow}
    {values : List ProcessedValue} (h : HasRows t rows values) (i : ℕ) :
    submittedRow t i = (do return { ← rows[i]? with value := ← values[i]? }) := by
  unfold Submission.submittedRow
  rw [h.values, h.names, h.compssTypes, h.compssDirections, h.compssStreams, h.compssPrefixes,
    h.contentTypes, h.weights, h.keepRenames]
  simp only [List.getElem?_map]
  rcases rows[i]? with _ | row <;> rcases values[i]? with _ | v <;> rfl

/-- Entries that depend on the argument alone. -/
theorem map_inputRows {β : Type} {inspect : Inspect} {f : ParameterRow → β} {g : Text × SEXP → β}
    (hf : ∀ arg value, f (inputRow inspect arg value) = g arg) {arguments : Arguments}
    {values : List ProcessedValue} (h : arguments.length = values.length) :
    (List.zipWith (inputRow inspect) arguments values).map f = arguments.map g := by
  have hfirst : (fun p : (Text × SEXP) × ProcessedValue => f (inputRow inspect p.1 p.2)) =
      g ∘ Prod.fst := funext fun p => hf p.1 p.2
  rw [List.map_zipWith, ← List.map_uncurry_zip_eq_zipWith]
  change (arguments.zip values).map (fun p => f (inputRow inspect p.1 p.2)) = _
  rw [hfirst, ← List.map_map, List.map_fst_zip h.le]

theorem map_value_inputRows (inspect : Inspect) {arguments : Arguments}
    {values : List ProcessedValue} (h : arguments.length = values.length) :
    (List.zipWith (inputRow inspect) arguments values).map ParameterRow.value = values := by
  rw [List.map_zipWith, ← List.map_uncurry_zip_eq_zipWith]
  change (arguments.zip values).map Prod.snd = values
  rw [List.map_snd_zip h.ge]

theorem map_inputRows_const {β : Type} {inspect : Inspect} {f : ParameterRow → β} {b : β}
    (hf : ∀ arg value, f (inputRow inspect arg value) = b) {arguments : Arguments}
    {values : List ProcessedValue} (h : arguments.length = values.length) :
    (List.zipWith (inputRow inspect) arguments values).map f =
      List.replicate arguments.length b := by
  rw [map_inputRows hf h, List.map_const']

/-- The vectors of a processed task are those of its rows. -/
structure ResultRows (result : TaskExecutionResult) (rows : List ParameterRow) : Prop where
  values : result.processedArguments = rows.map ParameterRow.value
  names : result.argumentsNames = rows.map ParameterRow.name
  compssTypes : result.argumentsType = rows.map ParameterRow.compssType
  compssDirections : result.metadata.compssDirections = rows.map ParameterRow.compssDirection
  compssStreams : result.metadata.compssStreams = rows.map ParameterRow.compssStream
  compssPrefixes : result.metadata.compssPrefixes = rows.map ParameterRow.compssPrefix
  contentTypes : result.contentTypes = rows.map ParameterRow.contentType
  weights : result.metadata.weights = rows.map ParameterRow.weight
  keepRenames : result.metadata.keepRenames = rows.map ParameterRow.keepRename

theorem ResultRows.hasRows {result : TaskExecutionResult} {rows : List ParameterRow}
    (h : ResultRows result rows) (fName : Text) (values : List ProcessedValue) :
    HasRows (taskSubmission fName values result) rows values :=
  ⟨rfl, h.names, h.compssTypes, h.compssDirections, h.compssStreams, h.compssPrefixes,
    h.contentTypes, h.weights, h.keepRenames⟩

theorem rows_of_executeTask {r : Surroundings} {task : DecoratedTask} {arguments : Arguments}
    {result : TaskExecutionResult}
    (h : rcompssExecuteTask r arguments task.filename task.serMethod task.returnValue =
      .ok result) :
    ∃ rows, computedRows r task arguments = .ok rows ∧ ResultRows result rows := by
  unfold rcompssExecuteTask at h
  obtain ⟨executed, hexecuted, h⟩ := except_bind_eq_ok.mp h
  obtain ⟨processed, hprocessed, h⟩ := except_bind_eq_ok.mp h
  have hlen := (processedValues_forall₂ hprocessed).length_eq
  have hcomputed (rows : List ParameterRow)
      (hrows : withReturnRow r (serMethods r.env task.serMethod) task.returnValue
        (List.zipWith (inputRow r.inspect) arguments processed) = .ok rows) :
      computedRows r task arguments = .ok rows :=
    except_bind_eq_ok.mpr ⟨processed, hprocessed, hrows⟩
  have hvalues := map_value_inputRows r.inspect hlen
  have entries {β : Type} {f : ParameterRow → β} (g : Text × SEXP → β)
      (hf : ∀ arg value, f (inputRow r.inspect arg value) = g arg) := map_inputRows hf hlen
  have constants {β : Type} {f : ParameterRow → β} (b : β)
      (hf : ∀ arg value, f (inputRow r.inspect arg value) = b) := map_inputRows_const hf hlen
  have hnames := entries (f := ParameterRow.name) Prod.fst fun _ _ => rfl
  have htypes : (List.zipWith (inputRow r.inspect) arguments processed).map
      ParameterRow.compssType =
        (arguments.map fun arg => processSingleArgument r.inspect arg.2).map Prod.fst := by
    rw [List.map_map]
    exact entries _ fun _ _ => rfl
  have hcontents : (List.zipWith (inputRow r.inspect) arguments processed).map
      ParameterRow.contentType =
        (arguments.map fun arg => processSingleArgument r.inspect arg.2).map Prod.snd := by
    rw [List.map_map]
    exact entries _ fun _ _ => rfl
  have hdirections := constants (f := ParameterRow.compssDirection) 0 fun _ _ => rfl
  have hstreams := constants (f := ParameterRow.compssStream) 3 fun _ _ => rfl
  have hprefixes := constants (f := ParameterRow.compssPrefix) "null".toList fun _ _ => rfl
  have hweights := constants (f := ParameterRow.weight) "1".toList fun _ _ => rfl
  have hrenames := constants (f := ParameterRow.keepRename) 0 fun _ _ => rfl
  unfold executeTask at hexecuted
  unfold withReturnRow at hcomputed
  cases hreturn : task.returnValue <;> simp only [hreturn] at hexecuted h hcomputed
  · cases hexecuted
    cases h
    exact ⟨_, hcomputed _ rfl, hvalues.symm, hnames.symm, htypes.symm, hdirections.symm,
      hstreams.symm, hprefixes.symm, hcontents.symm, hweights.symm, hrenames.symm⟩
  · rcases hmethod : (serMethods r.env task.serMethod)[1]? with _ | method
    · rw [hmethod] at hexecuted
      cases hexecuted
    · rw [hmethod] at hexecuted hcomputed
      cases hexecuted
      cases h
      refine ⟨_, hcomputed _ rfl, ?_, ?_, ?_, ?_, ?_, ?_, ?_, ?_, ?_⟩ <;>
        simp [hvalues, hnames, htypes, hcontents, hdirections, hstreams, hprefixes, hweights,
          hrenames, returnRow, processTaskMetadata, List.replicate_succ']

/-- An argument that is a symbol and is handed on as one. R answers for the variable that a
symbol names, so one that names a future object is replaced by a path. -/
def staysSymbol (inspect : Inspect) (v : SEXP) : Bool :=
  isSymbol v && (processSingleArgument inspect v).2 ≠ "future_object".toList

theorem future_is_file (inspect : Inspect) (v : SEXP)
    (h : (processSingleArgument inspect v).2 = "future_object".toList) :
    (processSingleArgument inspect v).1 = 10 := by
  unfold processSingleArgument at *
  split at h
  next i =>
    unfold processArgument at *
    simp only at *
    split at h
    next => cases h
    next hbasic =>
      rw [if_neg hbasic]
      split <;> rfl
  next => cases h

/-- Processing leaves exactly those symbols. -/
theorem isSymbol_processedValue {r : Surroundings} {method : Text} {i : ℕ} {arg : Text × SEXP}
    {value : ProcessedValue} (h : processedValue r method i arg = .ok value) :
    value.isSymbol = staysSymbol r.inspect arg.2 := by
  have hfile := future_is_file r.inspect arg.2
  unfold processedValue at h
  unfold staysSymbol
  rcases hprocessed : processSingleArgument r.inspect arg.2 with ⟨type, contentType⟩
  rw [hprocessed] at hfile
  simp only [hprocessed] at h ⊢
  split at h
  next hobject =>
    rw [hobject.2]
    split at h
    next hsymbol =>
      cases h
      simp [ProcessedValue.isSymbol]
    next hsymbol =>
      obtain ⟨_, -, h⟩ := except_bind_eq_ok.mp h
      cases h
      simp [ProcessedValue.isSymbol, hsymbol]
  next =>
    split at h
    next hfuture =>
      obtain ⟨path, -, h⟩ := except_bind_eq_ok.mp h
      cases h
      simp [ProcessedValue.isSymbol, hfuture.2]
    next hfuture =>
      cases h
      have hcontent : contentType ≠ "future_object".toList := fun hc => hfuture ⟨hfile hc, hc⟩
      rw [decide_eq_true hcontent, Bool.and_true]
      rfl

theorem isSymbol_processedValues {r : Surroundings} {method : Text} {i : ℕ}
    {arguments : Arguments} {values : List ProcessedValue}
    (h : processedValues r method i arguments = .ok values) :
    values.map ProcessedValue.isSymbol =
      arguments.map fun arg => staysSymbol r.inspect arg.2 := by
  rw [← List.forall₂_eq_eq_eq, List.forall₂_map_left_iff, List.forall₂_map_right_iff]
  refine (processedValues_forall₂ h).flip.imp ?_
  rintro value arg ⟨_, hvalue⟩
  exact isSymbol_processedValue hvalue

/-- No argument that stays a symbol stands before one that does not, and none at all before a
return value. -/
def SymbolsLast (inspect : Inspect) (returnValue : Bool) (arguments : Arguments) : Prop :=
  (arguments.Pairwise fun a b =>
      staysSymbol inspect a.2 = true → staysSymbol inspect b.2 = true) ∧
    (returnValue = true → ∀ arg ∈ arguments, staysSymbol inspect arg.2 = false)

/-- The call hands this task to `process_task`. -/
def Submits (r : Surroundings) (task : DecoratedTask) (values : List (Text × SEXP))
    (s : Session) (t : TaskSubmission) : Prop :=
  ∃ calls, (exec (rcompssExecuteDecoratedTask r task values) s).2.calls =
    s.calls ++ calls ++ [.processTask t]

/-- At each index below the number of values, the value and all other entries are those
computed for one argument, the one in that place; and with a return value the last row is the
one computed for it. -/
def Aligned (r : Surroundings) (task : DecoratedTask) (values : List (Text × SEXP))
    (t : TaskSubmission) : Prop :=
  ∃ arguments rows, matchArguments task.fName task.formals values = .ok arguments ∧
    computedRows r task arguments = .ok rows ∧
    (∀ i < t.values.length, submittedRow t i = rows[i]?) ∧
    (task.returnValue = true → ∃ method, (serMethods r.env task.serMethod)[1]? = some method ∧
      submittedRow t (t.values.length - 1) = some (returnRow r method))

/-- Where a submission comes from. -/
theorem Submits.cases {r : Surroundings} {task : DecoratedTask} {values : List (Text × SEXP)}
    {s : Session} {t : TaskSubmission} (h : Submits r task values s t) :
    ∃ arguments result clean path s',
      matchArguments task.fName task.formals values = .ok arguments ∧
      rcompssExecuteTask r arguments task.filename task.serMethod task.returnValue = .ok result ∧
      cleanArguments result.processedArguments = .ok clean ∧
      t = taskSubmission task.fName clean result ∧ Registered task path s s' ∧
      (exec (rcompssExecuteDecoratedTask r task values) s).2.calls =
        s'.calls ++ [.processTask t] := by
  obtain ⟨calls, hcalls⟩ := h
  have hstep := exec_decorated r task values s
  generalize (exec (rcompssExecuteDecoratedTask r task values) s).2 = after at hcalls hstep
  cases hstep with
  | idle => simp at hcalls
  | registered hregistered =>
    cases hregistered with
    | known => simp at hcalls
    | new =>
      have hlast := congrArg List.getLast? hcalls
      simp at hlast
  | submitted matched processed registered cleaned =>
    have hlast := congrArg List.getLast? hcalls
    simp only [List.getLast?_append, List.getLast?_singleton, Option.some_or, Option.some.injEq,
      RuntimeCall.processTask.injEq] at hlast
    exact ⟨_, _, _, _, _, matched, processed, cleaned, hlast.symm, registered, by rw [← hlast]⟩

theorem clean_eq_filter {processed clean : List ProcessedValue}
    (h : cleanArguments processed = .ok clean) :
    clean = processed.filter fun v => !v.isSymbol := by
  unfold cleanArguments at h
  simp only at h
  split at h
  · cases h
  · cases h
    rfl

/-- The symbols among the rows of a call. -/
theorem isSymbol_computedRows {r : Surroundings} {task : DecoratedTask} {arguments : Arguments}
    {rows : List ParameterRow} (h : computedRows r task arguments = .ok rows) :
    (rows.map ParameterRow.value).map ProcessedValue.isSymbol =
      (arguments.map fun arg => staysSymbol r.inspect arg.2) ++
        if task.returnValue then [false] else [] := by
  unfold computedRows at h
  obtain ⟨processed, hprocessed, h⟩ := except_bind_eq_ok.mp h
  have hvalues := map_value_inputRows r.inspect (processedValues_forall₂ hprocessed).length_eq
  rw [← isSymbol_processedValues hprocessed]
  unfold withReturnRow at h
  split at h
  next hreturn =>
    split at h
    · cases h
    · cases h
      rw [List.map_append, List.map_append, hvalues, if_pos hreturn]
      rfl
  next hreturn =>
    cases h
    rw [hvalues, if_neg hreturn, List.append_nil]

/-- A submission agrees with its rows where its values are a first part of theirs. -/
theorem HasRows.agrees_iff {t : TaskSubmission} {rows : List ParameterRow}
    {values : List ProcessedValue} (h : HasRows t rows values)
    (hlen : values.length ≤ rows.length) :
    (∀ i < t.values.length, Submission.submittedRow t i = rows[i]?) ↔
      values <+: rows.map ParameterRow.value := by
  rw [prefix_iff_getElem?_eq, h.values]
  refine forall₂_congr fun i hi => ?_
  have hrow : i < rows.length := by omega
  rw [h.submittedRow, List.getElem?_map, List.getElem?_eq_getElem hi,
    List.getElem?_eq_getElem hrow]
  constructor
  · intro heq
    exact congrArg (Option.map ParameterRow.value) heq
  · intro heq
    have hvalue : values[i] = rows[i].value := Option.some.inj heq
    simp [hvalue]

/-- Filtering out the symbols takes away a tail exactly when they come last. -/
theorem symbolsLast_iff {r : Surroundings} {task : DecoratedTask} {arguments : Arguments}
    {rows : List ParameterRow} (h : computedRows r task arguments = .ok rows) :
    (rows.map ParameterRow.value).filter (fun v => !v.isSymbol) <+: rows.map ParameterRow.value ↔
      SymbolsLast r.inspect task.returnValue arguments := by
  have hflags := isSymbol_computedRows h
  rw [filter_prefix_iff, SymbolsLast, List.Pairwise.iff (S := fun a b : ProcessedValue =>
    a.isSymbol = true → b.isSymbol = true) fun {a b} => by
      cases a.isSymbol <;> cases b.isSymbol <;> simp]
  rw [← List.pairwise_map (f := ProcessedValue.isSymbol) (R := fun a b => a = true → b = true),
    hflags, List.pairwise_append, List.pairwise_map]
  cases task.returnValue <;> simp

/-- With a return value its row is the last. -/
theorem computedRows_return {r : Surroundings} {task : DecoratedTask} {arguments : Arguments}
    {rows : List ParameterRow} (h : computedRows r task arguments = .ok rows)
    (hreturn : task.returnValue = true) :
    ∃ inputs method, (serMethods r.env task.serMethod)[1]? = some method ∧
      rows = inputs ++ [returnRow r method] := by
  unfold computedRows at h
  obtain ⟨processed, -, h⟩ := except_bind_eq_ok.mp h
  unfold withReturnRow at h
  rw [if_pos hreturn] at h
  split at h
  · cases h
  next method hmethod =>
    cases h
    exact ⟨_, method, hmethod, rfl⟩

/-- With a return value and the symbols last there are no symbols. -/
theorem filter_symbols_return {r : Surroundings} {task : DecoratedTask} {arguments : Arguments}
    {rows : List ParameterRow} (h : computedRows r task arguments = .ok rows)
    (hreturn : task.returnValue = true)
    (hlast : SymbolsLast r.inspect task.returnValue arguments) :
    (rows.map ParameterRow.value).filter (fun v => !v.isSymbol) =
      rows.map ParameterRow.value := by
  have hnone : ∀ b ∈ (rows.map ParameterRow.value).map ProcessedValue.isSymbol, b = false := by
    rw [isSymbol_computedRows h, if_pos hreturn]
    intro b hb
    rcases List.mem_append.mp hb with hb | hb
    · obtain ⟨arg, harg, rfl⟩ := List.mem_map.mp hb
      exact hlast.2 hreturn arg harg
    · exact List.mem_singleton.mp hb
  refine List.filter_eq_self.mpr fun v hv => ?_
  rw [hnone _ (List.mem_map_of_mem hv)]
  rfl

/-- The rows of a submission stand in their places exactly when the symbols come last. -/
theorem submission_aligned_iff {r : Surroundings} {task : DecoratedTask}
    {values : List (Text × SEXP)} {s : Session} {t : TaskSubmission}
    (h : Submits r task values s t) :
    Aligned r task values t ↔ ∃ arguments,
      matchArguments task.fName task.formals values = .ok arguments ∧
        SymbolsLast r.inspect task.returnValue arguments := by
  obtain ⟨arguments, result, clean, _, _, hmatched, hprocessed, hcleaned, rfl, -, -⟩ := h.cases
  obtain ⟨rows, hrows, hresult⟩ := rows_of_executeTask hprocessed
  have hclean : clean = (rows.map ParameterRow.value).filter fun v => !v.isSymbol := by
    rw [clean_eq_filter hcleaned, hresult.values]
  have hlen : clean.length ≤ rows.length := by
    rw [hclean]
    exact (List.length_filter_le _ _).trans (List.length_map _).le
  have hhas := hresult.hasRows task.fName clean
  have hagrees := hhas.agrees_iff hlen
  rw [hclean, symbolsLast_iff hrows, ← hclean] at hagrees
  constructor
  · rintro ⟨arguments', rows', hmatched', hrows', halign, -⟩
    cases hmatched.symm.trans hmatched'
    cases hrows.symm.trans hrows'
    exact ⟨arguments, hmatched, hagrees.mp halign⟩
  · rintro ⟨arguments', hmatched', hlast⟩
    cases hmatched.symm.trans hmatched'
    refine ⟨arguments, rows, hmatched, hrows, hagrees.mpr hlast, fun hreturn => ?_⟩
    obtain ⟨inputs, method, hmethod, hsplit⟩ := computedRows_return hrows hreturn
    have hall : clean.length = rows.length := by
      rw [hclean, filter_symbols_return hrows hreturn hlast, List.length_map]
    have hpos : rows.length = inputs.length + 1 := by rw [hsplit, List.length_append]; rfl
    refine ⟨method, hmethod, ?_⟩
    rw [hagrees.mpr hlast _ (by rw [hhas.values]; omega), hhas.values, hall, hpos, hsplit]
    simp

/-- The double 2. -/
def two : SEXP := .atom (.real [0x4000000000000000#64]) []

/-- With both arguments given the call submits, and its rows stand in their places. -/
theorem add_both_aligned : ∃ t,
    Submits plainSurroundings addTask [([], two), ([], two)] ⟨[], []⟩ t ∧
      Aligned plainSurroundings addTask [([], two), ([], two)] t := by
  have h : Submits plainSurroundings addTask [([], two), ([], two)] ⟨[], []⟩ _ := ⟨[_], rfl⟩
  exact ⟨_, h, (submission_aligned_iff h).mpr
    ⟨[("x".toList, two), ("y".toList, two)], rfl, by decide, by decide⟩⟩

/-- Without its first argument the call submits the return file as an input. -/
theorem missing_argument_shifts : ∃ t,
    Submits plainSurroundings addTask [("y".toList, two)] ⟨[], []⟩ t ∧
      ¬ Aligned plainSurroundings addTask [("y".toList, two)] t := by
  refine ⟨_, ⟨[_], rfl⟩, ?_⟩
  rintro ⟨arguments, rows, -, -, -, hreturn⟩
  obtain ⟨method, -, hrow⟩ := hreturn rfl
  have hdirection := congrArg (Option.map ParameterRow.compssDirection) hrow
  cases hdirection

end RCompss.Submission
