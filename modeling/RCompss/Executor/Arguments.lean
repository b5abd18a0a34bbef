import RCompss.Executor.Process

/-! `buildFunctionArgs`: the argument list that a task's parameter tokens describe. -/
namespace RCompss.Executor
open RCompss.Library

variable {ρ : Type}

/-- Tokens are counted from one; `at` throws outside. -/
def getParam (params : List Text) (index : ℤ) : SessionM ρ Text :=
  match if 1 ≤ index then params[(index - 1).toNat]? else none with
  | some token => return token
  | none => throw outOfRange

def getInt (params : List Text) (index : ℤ) : SessionM ρ ℤ := do
  match stoi (← getParam params index) with
  | some n => return n
  | none => throw ⟨.std, "stoi".toList⟩

/-- `n` tokens from `index` on. -/
def getWords (params : List Text) (index : ℤ) : ℕ → SessionM ρ (List Text)
  | 0 => return []
  | n + 1 => do
      let word ← getParam params index
      let words ← getWords params (index + 1) n
      return word :: words

/-- The file is read through R; every exception leaves as a `std::runtime_error`. -/
def unserializeArg (rt : Runtime ρ) (a : Affinity) (path : Text) : SessionM ρ ArgValue :=
  tryCatch (do return .object (← rt.compssUnserialize path a)) fun e =>
    throw ⟨.std, match e.cls with
      | .rcpp => "Rcpp exception unserializing file '".toList ++ path ++ "': ".toList ++ e.what
      | .std => "Exception unserializing file '".toList ++ path ++ "': ".toList ++ e.what
      | .unknown => "Unknown error unserializing file '".toList ++ path ++ "'".toList⟩

/-- The argument whose record starts at `first`, and the start of the next record. -/
def buildArg (rt : Runtime ρ) (a : Affinity) (params : List Text) (first : ℤ) :
    SessionM ρ ((Text × ArgValue) × ℤ) := do
  let typeCode ← getParam params first
  let argName ← getParam params (first + 3)
  if typeCode = "0".toList then
    let value ← getParam params (first + 5)
    return ((argName, .lgl (parseBool value)), first + 6)
  else if typeCode = "4".toList then
    let value ← getInt params (first + 5)
    return ((argName, .int value), first + 6)
  else if typeCode = "7".toList then
    match rt.stod (← getParam params (first + 5)) with
    | some value => return ((argName, .real value), first + 6)
    | none => throw ⟨.std, "stod".toList⟩
  else if typeCode = "8".toList then
    let numWords ← getInt params (first + 5)
    let words ← getWords params (first + 6) numWords.toNat
    return ((argName, .str (List.intercalate [' '] words)), first + (6 + numWords))
  else if typeCode = "10".toList then
    let contentType ← getParam params (first + 4)
    let value ← getParam params (first + 5)
    let pathValue := stripValueSuffix value
    if contentType ≠ "null".toList then
      let value ← unserializeArg rt a pathValue
      return ((argName, value), first + 6)
    else
      return ((argName, .str pathValue), first + 6)
  else
    return ((argName, .null), first + 6)

/-- `n` argument records from `first` on. -/
def buildArgs (rt : Runtime ρ) (a : Affinity) (params : List Text) (first : ℤ) :
    ℕ → SessionM ρ (List (Text × ArgValue) × ℤ)
  | 0 => return ([], first)
  | n + 1 => do
      let (arg, next) ← buildArg rt a params first
      let (args, last) ← buildArgs rt a params next n
      return (arg :: args, last)

structure FunctionArgs where
  args : List (Text × ArgValue)
  returnIndex : ℤ
  numReturns : ℤ

/-- The return value placeholder is dropped from the arguments. -/
def buildFunctionArgs (rt : Runtime ρ) (a : Affinity) (params : List Text) :
    SessionM ρ FunctionArgs := do
  let numOfNodes ← getInt params 1
  let hasTarget ← getParam params (1 + numOfNodes + 3)
  let numReturns ← getInt params (1 + numOfNodes + 5)
  let numOfArgs ← getInt params (1 + numOfNodes + 6)
  let lengParamsFunc := numOfArgs - numReturns - parseBool hasTarget
  if lengParamsFunc < 0 then
    throw ⟨.rcpp, "negative length vectors are not allowed".toList⟩
  let (args, last) ← buildArgs rt a params (numOfNodes + 8) lengParamsFunc.toNat
  return {
    args := args.filter fun arg => !rcompssIsReturnValuePlaceholderArgName arg.1
    returnIndex := last
    numReturns := numReturns }

section
variable {α : Type} {params : List Text} {index : ℤ} {s t : ρ} {b : α}

/-- What follows a token goes on from it, in the same session. -/
theorem exec_getParam_bind {f : Text → SessionM ρ α}
    (h : exec (getParam params index >>= f) s = (.ok b, t)) :
    ∃ token, params[(index - 1).toNat]? = some token ∧ exec (f token) s = (.ok b, t) := by
  unfold getParam at h
  split at h
  next token heq =>
    split at heq
    · exact ⟨token, heq, h⟩
    · cases heq
  next => cases h

theorem exec_getInt_bind {f : ℤ → SessionM ρ α}
    (h : exec (getInt params index >>= f) s = (.ok b, t)) :
    ∃ token n, params[(index - 1).toNat]? = some token ∧ stoi token = some n ∧
      exec (f n) s = (.ok b, t) := by
  unfold getInt at h
  rw [bind_assoc] at h
  obtain ⟨token, htoken, h⟩ := exec_getParam_bind h
  split at h
  next n hn => exact ⟨token, n, htoken, hn, h⟩
  next => cases h

/-- The words read are parameters, as many as asked for. -/
theorem exec_getWords_bind {n : ℕ} {f : List Text → SessionM ρ α}
    (h : exec (getWords params index n >>= f) s = (.ok b, t)) :
    ∃ ws, ws.length = n ∧ (∀ w ∈ ws, w ∈ params) ∧ exec (f ws) s = (.ok b, t) := by
  induction n generalizing index f with
  | zero => exact ⟨[], rfl, by simp, h⟩
  | succ n ih =>
    unfold getWords at h
    rw [bind_assoc] at h
    obtain ⟨word, hword, h⟩ := exec_getParam_bind h
    rw [bind_assoc] at h
    obtain ⟨ws, hlen, hws, h⟩ := ih h
    refine ⟨word :: ws, by simp [hlen], fun w hw => ?_, h⟩
    rcases List.mem_cons.mp hw with rfl | hw
    · exact List.mem_of_getElem? hword
    · exact hws w hw

end

end RCompss.Executor
