import RCompss.Payload.Methods

/-! `TaskDecorator`: types and metadata of the arguments of a task call. -/
namespace RCompss.Submission
open RCompss.Payload

/-- `TypeMapper::mapType`. -/
def mapType (rType : Text) : ℕ :=
  if rType = "logical".toList then 0
  else if rType = "CHAR".toList then 1
  else if rType = "BYTE".toList then 2
  else if rType = "SHORT".toList then 3
  else if rType = "integer".toList then 4
  else if rType = "double".toList then 7
  else if rType = "character".toList then 8
  else 10

structure ProcessedArgument where
  compssType : ℕ
  contentType : Text
  needsSerialization : Bool
  isFutureObject : Bool
  deriving DecidableEq

def processArgument (rClass rType : Text) (length classLength : ℕ) : ProcessedArgument :=
  if classLength = 1 ∧ length = 1 ∧
      (rClass = "integer".toList ∨ rClass = "numeric".toList ∨ rClass = "character".toList) then
    { compssType := mapType rType
      contentType := []
      needsSerialization := false
      isFutureObject := false }
  else if classLength = 1 ∧ rClass = "future_object".toList then
    { compssType := 10
      contentType := "future_object".toList
      needsSerialization := true
      isFutureObject := true }
  else
    { compssType := 10
      contentType := "object".toList
      needsSerialization := true
      isFutureObject := false }

/-- What R answers to `class`, `typeof` and `length` of a value. -/
structure Inspection where
  classes : List Text
  rType : Text
  length : ℕ

/-- `none` where one of the three raises, as it does for a missing argument. -/
abbrev Inspect := SEXP → Option Inspection

/-- Type code and content type of one argument. -/
def processSingleArgument (inspect : Inspect) (arg : SEXP) : ℕ × Text :=
  match inspect arg with
  | some i =>
      let processed := processArgument (i.classes.head?.getD []) i.rType i.length i.classes.length
      (processed.compssType, processed.contentType)
  | none => (10, "object".toList)

structure TaskMetadata where
  compssDirections : List ℕ
  compssStreams : List ℕ
  compssPrefixes : List Text
  weights : List Text
  keepRenames : List ℕ
  numReturns : ℕ

def processTaskMetadata (argumentsLength : ℕ) (hasReturnValue : Bool) : TaskMetadata :=
  if hasReturnValue then
    { compssDirections := List.replicate argumentsLength 0 ++ [1]
      compssStreams := List.replicate (argumentsLength + 1) 3
      compssPrefixes := List.replicate (argumentsLength + 1) "null".toList
      weights := List.replicate (argumentsLength + 1) "1".toList
      keepRenames := List.replicate argumentsLength 0 ++ [1]
      numReturns := 1 }
  else
    { compssDirections := List.replicate argumentsLength 0
      compssStreams := List.replicate argumentsLength 3
      compssPrefixes := List.replicate argumentsLength "null".toList
      weights := List.replicate argumentsLength "1".toList
      keepRenames := List.replicate argumentsLength 0
      numReturns := 0 }

/-- An argument after processing: the value itself, or the path of its file. -/
inductive ProcessedValue where
  | value (v : SEXP)
  | path (p : Text)

structure TaskExecutionResult where
  /-- Filled in by `rcompss_execute_task`. -/
  processedArguments : List ProcessedValue
  argumentsNames : List Text
  argumentsType : List ℕ
  contentTypes : List Text
  metadata : TaskMetadata
  returnValueFilename : Text
  returnValueName : Text
  typeArgsPath : Text

inductive Failure where
  /-- An R error. -/
  | raised (message : Text)
  /-- An index past the end of a C++ vector. -/
  | undefined

/-- `executeTask`, with the UID it draws for the return value. -/
def executeTask (inspect : Inspect) (arguments : List (Text × SEXP))
    (masterWorkingDir filename : Text) (serMethod : List Text) (returnValue : Bool) (uid : UID) :
    Except Failure TaskExecutionResult := do
  let types := arguments.map fun arg => processSingleArgument inspect arg.2
  let result : TaskExecutionResult := {
    processedArguments := arguments.map fun arg => .value arg.2
    argumentsNames := arguments.map Prod.fst
    argumentsType := types.map Prod.fst
    contentTypes := types.map Prod.snd
    metadata := processTaskMetadata arguments.length returnValue
    returnValueFilename := []
    returnValueName := []
    typeArgsPath := filename }
  if returnValue then
    match serMethod[1]? with
    | none => throw .undefined
    | some method => return { result with
        returnValueFilename := returnValueFilename masterWorkingDir method uid.text
        returnValueName := buildReturnValueName method
        argumentsType := result.argumentsType ++ [10]
        contentTypes := result.contentTypes ++ [[]] }
  else return result

end RCompss.Submission
