import RCompss.Library.Exec
import RCompss.Submission.Constraints
import RCompss.Submission.Marshalling

/-! A call of a decorated function, from its arguments to the runtime. -/
namespace RCompss.Submission
open RCompss.Library RCompss.Payload

/-- What the binding asks of R, of the file system and of its own generator during a call. -/
structure Surroundings where
  inspect : Inspect
  /-- `RCOMPSs_SERIALIZATION`. -/
  env : Option Text
  masterWorkingDir : Text
  workingDir : Text
  /-- The path in a future object. -/
  outputfile : SEXP → Except Failure Text
  /-- `rcompss_serialize` of an object to a path by a method. -/
  serialize : SEXP → Text → Text → Except Failure Unit
  /-- The UIDs drawn: for the return value at 0, for the arguments from 1 on. -/
  uid : ℕ → UID

/-- What becomes of the `i`-th argument, counted from one. -/
def processedValue (r : Surroundings) (method : Text) (i : ℕ) (arg : Text × SEXP) :
    Except Failure ProcessedValue := do
  let (type, contentType) := processSingleArgument r.inspect arg.2
  if type = 10 ∧ contentType = "object".toList then
    if isSymbol arg.2 then
      return .value arg.2
    let path := buildArgumentFilename r.masterWorkingDir method arg.1 i (r.uid i).text
    r.serialize arg.2 path method
    return .path path
  else if type = 10 ∧ contentType = "future_object".toList then
    return .path (← r.outputfile arg.2)
  else
    return .value arg.2

/-- The arguments from the `i`-th on. -/
def processedValues (r : Surroundings) (method : Text) (i : ℕ) :
    Arguments → Except Failure (List ProcessedValue)
  | [] => return []
  | arg :: arguments => do
      let value ← processedValue r method i arg
      let values ← processedValues r method (i + 1) arguments
      return value :: values

/-- Each value is what became of the argument in its place. -/
theorem processedValues_forall₂ {r : Surroundings} {method : Text} {i : ℕ} {arguments : Arguments}
    {values : List ProcessedValue} (h : processedValues r method i arguments = .ok values) :
    List.Forall₂ (fun arg value => ∃ k, processedValue r method k arg = .ok value)
      arguments values := by
  induction arguments generalizing i values with
  | nil =>
    cases h
    exact .nil
  | cons arg arguments ih =>
    unfold processedValues at h
    obtain ⟨value, hvalue, h⟩ := except_bind_eq_ok.mp h
    obtain ⟨rest, hrest, h⟩ := except_bind_eq_ok.mp h
    cases h
    exact .cons ⟨i, hvalue⟩ (ih hrest)

/-- `rcompss_execute_task`. -/
def rcompssExecuteTask (r : Surroundings) (arguments : Arguments) (filename : Text)
    (serMethod : List CharSXP) (returnValue : Bool) : Except Failure TaskExecutionResult := do
  let methods := serMethods r.env serMethod
  let result ← executeTask r.inspect arguments r.masterWorkingDir filename methods returnValue
    (r.uid 0)
  let processed ← processedValues r (methods.headD []) 1 arguments
  if returnValue ∧ 0 < result.metadata.numReturns then
    return { result with
      processedArguments := processed ++ [.path result.returnValueFilename]
      argumentsNames := result.argumentsNames ++ [result.returnValueName] }
  else
    return { result with processedArguments := processed }

/-- The arguments of `register_core_element`. -/
structure CoreElement where
  ceSignature : Text
  implSignature : Text
  implConstraints : Text
  implType : Text
  implLocal : Text
  implIO : Text
  prolog : List Text
  epilog : List Text
  container : List Text
  typeArgs : List Text
  deriving DecidableEq

/-- The arguments of `process_task`. -/
structure TaskSubmission where
  appId : ℕ
  signature : Text
  onFailure : Text
  timeOut : ℕ
  priority : ℕ
  numNodes : ℕ
  reduce : ℕ
  chunkSize : ℕ
  replicated : ℕ
  distributed : ℕ
  hasTarget : ℕ
  numReturns : ℕ
  values : List ProcessedValue
  names : List Text
  compssTypes : List ℕ
  compssDirections : List ℕ
  compssStreams : List ℕ
  compssPrefixes : List Text
  contentTypes : List Text
  weights : List Text
  keepRenames : List ℕ

inductive RuntimeCall where
  | registerCoreElement (element : CoreElement)
  | processTask (submission : TaskSubmission)

/-- The global environment as far as its names go, and the calls of `register_core_element` and
`process_task` so far. -/
structure Session where
  globals : List Text
  calls : List RuntimeCall

abbrev SubmitM := Exec Session Failure

/-- A function decorated by `task`, with the constraints it carries. -/
structure DecoratedTask where
  fName : Text
  formals : Arguments
  constraints : Constraints
  filename : Text
  returnValue : Bool
  returnType : Text
  serMethod : List CharSXP
  infoOnly : Bool

inductive FutureObject where
  | element (outputfile : Text)
  | list (outputfile : Text)
  /-- The value of a global variable `FO`. -/
  | global

def call (c : RuntimeCall) : SubmitM Unit := modify fun s => { s with calls := s.calls ++ [c] }

/-- The registration of a decorated function. -/
def coreElement (task : DecoratedTask) (typeArgsPath : Text) : Except Failure CoreElement := do
  let implLocal ← implLocal task.constraints
  let constraintString ← constraintString (implConstraintSet task.constraints)
  return {
    ceSignature := task.fName
    implSignature := task.fName
    implConstraints := constraintString
    implType := "METHOD".toList
    implLocal := implLocal
    implIO := "False".toList
    prolog := ["", "", "False"].map String.toList
    epilog := ["", "", "False"].map String.toList
    container := ["", "", ""].map String.toList
    typeArgs := [typeArgsPath, task.fName] }

/-- Register the function unless its marker is there. -/
def register (task : DecoratedTask) (typeArgsPath : Text) : SubmitM Unit := do
  let marker ← registerMarker task.fName task.constraints
  if marker ∉ (← get).globals then
    let element ← coreElement task typeArgsPath
    call (.registerCoreElement element)
    modify fun s => { s with globals := marker :: s.globals }

def ProcessedValue.isSymbol : ProcessedValue → Bool
  | .value v => Submission.isSymbol v
  | .path _ => false

def ProcessedValue.isNull : ProcessedValue → Bool
  | .value v => v.isNil
  | .path _ => false

/-- The processed arguments without symbols. Appending a `NULL` to a list leaves it as it is,
and then there is a name too many. -/
def cleanArguments (processed : List ProcessedValue) : Except Failure (List ProcessedValue) :=
  let clean := processed.filter fun v => !v.isSymbol
  if clean.any (·.isNull) then
    .error (.raised ("'names' attribute [".toList ++ decimal clean.length ++
      "] must be the same length as the vector [".toList ++
        decimal (clean.filter fun v => !v.isNull).length ++ "]".toList))
  else .ok clean

/-- The task handed to the runtime. -/
def taskSubmission (fName : Text) (values : List ProcessedValue) (result : TaskExecutionResult) :
    TaskSubmission where
  appId := 0
  signature := fName
  onFailure := "RETRY".toList
  timeOut := 0
  priority := 0
  numNodes := 1
  reduce := 0
  chunkSize := 0
  replicated := 0
  distributed := 0
  hasTarget := 0
  numReturns := result.metadata.numReturns
  values := values
  names := result.argumentsNames
  compssTypes := result.argumentsType
  compssDirections := result.metadata.compssDirections
  compssStreams := result.metadata.compssStreams
  compssPrefixes := result.metadata.compssPrefixes
  contentTypes := result.contentTypes
  weights := result.metadata.weights
  keepRenames := result.metadata.keepRenames

/-- Whether `process_task` gets to hand the task to the runtime. -/
def TaskSubmission.marshal (t : TaskSubmission) : Except Failure Unit :=
  marshalParameters t.values t.compssTypes

/-- `process_task`. -/
def processTask (t : TaskSubmission) : SubmitM Unit := do
  call (.processTask t)
  t.marshal

/-- The future that a call returns. For another return type no `FO` is assigned, and R looks
for a variable of that name outside of the function. -/
def futureObject (globals : List Text) (returnType outputfile : Text) :
    Except Failure FutureObject :=
  if returnType = "element".toList then .ok (.element outputfile)
  else if returnType = "list".toList then .ok (.list outputfile)
  else if "FO".toList ∈ globals then .ok .global
  else .error (.raised "object 'FO' not found".toList)

/-- `rcompss_execute_decorated_task`. -/
def rcompssExecuteDecoratedTask (r : Surroundings) (task : DecoratedTask)
    (values : List (Text × SEXP)) : SubmitM (Option FutureObject) := do
  let arguments ← matchArguments task.fName task.formals values
  let result ← rcompssExecuteTask r arguments task.filename task.serMethod task.returnValue
  if task.infoOnly then
    return none
  register task (r.workingDir ++ '/' :: result.typeArgsPath)
  let clean ← cleanArguments result.processedArguments
  processTask (taskSubmission task.fName clean result)
  if task.returnValue then
    return some (← futureObject (← get).globals task.returnType result.returnValueFilename)
  else
    return none

/-- What the function made by `task` gives to `rcompss_execute_decorated_task` by name. -/
def decoratorFormals : List Text :=
  ["f", "f_name", "filename", "return_value", "return_type", "ser_method", "info_only"].map
    String.toList

/-- `do.call` puts the values into the same call, where R admits no name twice. -/
def namedOnce (values : List (Text × SEXP)) : Except Failure Unit :=
  match decoratorFormals.find? fun name => values.any (·.1 = name) with
  | some name => .error (.raised
      ("formal argument \"".toList ++ name ++ "\" matched by multiple actual arguments".toList))
  | none => .ok ()

/-- The function made by `task`. -/
def decoratedFunction (r : Surroundings) (task : DecoratedTask) (values : List (Text × SEXP)) :
    SubmitM (Option FutureObject) := do
  namedOnce values
  rcompssExecuteDecoratedTask r task values

@[simp] theorem meets_call {c : RuntimeCall} {s : Session} {Q : Unit → Session → Prop}
    {E : Failure → Session → Prop} :
    Meets (call c) s Q E ↔ Q () { s with calls := s.calls ++ [c] } := Iff.rfl

/-- What registering leaves: a session that knew the marker as it was, and else the marker
and one registration. -/
inductive Registered (task : DecoratedTask) (path : Text) (s : Session) : Session → Prop
  | known {marker : Text} (spelled : registerMarker task.fName task.constraints = .ok marker)
      (known : marker ∈ s.globals) : Registered task path s s
  | new {marker : Text} {element : CoreElement}
      (spelled : registerMarker task.fName task.constraints = .ok marker)
      (unknown : marker ∉ s.globals) (built : coreElement task path = .ok element) :
      Registered task path s
        ⟨marker :: s.globals, s.calls ++ [.registerCoreElement element]⟩

theorem register_meets (task : DecoratedTask) (path : Text) (s : Session) :
    Meets (register task path) s (fun _ t => Registered task path s t) (fun _ t => t = s) := by
  unfold register
  simp only [meets_bind, meets_get]
  refine meets_lift (fun marker hmarker => ?_) fun _ _ => rfl
  split
  next hnew =>
    simp only [meets_bind, meets_call, meets_modify]
    exact meets_lift (fun element helement => .new hmarker hnew helement) fun _ _ => rfl
  next hknown => exact .known hmarker (not_not.mp hknown)

/-- All a call of a decorated function can do to the session. -/
inductive Step (r : Surroundings) (task : DecoratedTask) (values : List (Text × SEXP))
    (s : Session) : Session → Prop
  | idle : Step r task values s s
  | registered {path : Text} {t : Session} (registered : Registered task path s t) :
      Step r task values s t
  | submitted {arguments : Arguments} {result : TaskExecutionResult}
      {clean : List ProcessedValue} {path : Text} {t : Session}
      (matched : matchArguments task.fName task.formals values = .ok arguments)
      (processed : rcompssExecuteTask r arguments task.filename task.serMethod
        task.returnValue = .ok result)
      (registered : Registered task path s t)
      (cleaned : cleanArguments result.processedArguments = .ok clean) :
      Step r task values s
        { t with calls := t.calls ++ [.processTask (taskSubmission task.fName clean result)] }

theorem decorated_meets (r : Surroundings) (task : DecoratedTask) (values : List (Text × SEXP))
    (s : Session) : Meets (rcompssExecuteDecoratedTask r task values) s
      (fun _ t => Step r task values s t) (fun _ t => Step r task values s t) := by
  unfold rcompssExecuteDecoratedTask
  simp only [meets_bind]
  refine meets_lift (fun arguments hmatched => ?_) fun _ _ => .idle
  refine meets_lift (fun result hprocessed => ?_) fun _ _ => .idle
  split
  · exact .idle
  simp only [meets_bind]
  refine (register_meets _ _ s).mono (fun _ t hregistered => ?_) fun _ t ht => ht ▸ .idle
  refine meets_lift (fun clean hcleaned => ?_) fun _ _ => .registered hregistered
  have hstep := Step.submitted hmatched hprocessed hregistered hcleaned
  rw [processTask, meets_bind, meets_call]
  refine meets_lift (fun _ _ => ?_) fun _ _ => hstep
  split
  · rw [meets_bind, meets_get, meets_bind]
    exact meets_lift (fun _ _ => hstep) fun _ _ => hstep
  · exact hstep

/-- However a call ends, the session has made a step. -/
theorem exec_decorated (r : Surroundings) (task : DecoratedTask) (values : List (Text × SEXP))
    (s : Session) :
    Step r task values s (exec (rcompssExecuteDecoratedTask r task values) s).2 :=
  (decorated_meets r task values s).state

/-- A session in which R knows doubles by value, raises for anything else, and every file can
be written. -/
def plainSurroundings : Surroundings where
  inspect
    | .atom (.real data) [] => some ⟨["numeric".toList], "double".toList, data.length⟩
    | _ => none
  env := none
  masterWorkingDir := "/tmp".toList
  workingDir := "/home".toList
  outputfile _ := .error (.raised "not a list".toList)
  serialize _ _ _ := .ok ()
  uid _ := sampleUID

/-- `add <- function(x, y)`, decorated to return a value. -/
def addTask : DecoratedTask where
  fName := "add".toList
  formals := [("x".toList, missingArg), ("y".toList, missingArg)]
  constraints := []
  filename := "add.R".toList
  returnValue := true
  returnType := "list".toList
  serMethod := List.replicate 2 (some ⟨[99, 112, 112], by decide, by decide⟩)
  infoOnly := false

end RCompss.Submission
