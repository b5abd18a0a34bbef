import RCompss.Executor.Run
import RCompss.Library.Runs

/-! The global environment in which the executor sources the modules of its tasks, and the
functions it invokes. -/
namespace RCompss.Executor
open RCompss.Library

/-- What a name is bound to. -/
inductive Binding (φ : Type) where
  | func (f : φ)
  | value (v : SEXP)

/-- The frame of the global environment, and all else that R code reaches: what is attached
behind it, and the files. -/
structure RSession (σ φ : Type) where
  globalEnv : Text → Option (Binding φ)
  rest : σ

/-- The R code an executor runs, its functions being values of `φ`. -/
structure RCode (σ φ : Type) where
  readable : Text → σ → Bool
  source : Text → Affinity → SessionM (RSession σ φ) Unit
  /-- The function of a name in the environments behind the global one. -/
  attached : Text → σ → Option φ
  apply : φ → List (Text × ArgValue) → Affinity → SessionM (RSession σ φ) SEXP
  compssUnserialize : Text → Affinity → SessionM (RSession σ φ) SEXP
  compssSerialize : SEXP → Text → Text → Affinity → SessionM (RSession σ φ) Unit
  stod : Text → Option (BitVec 64)

/-- A session with the functions that the executor has invoked in it. -/
structure Traced (σ φ : Type) where
  session : RSession σ φ
  invoked : List φ

section
variable {σ φ α : Type}

/-- A name that is bound to something else counts as unbound. -/
def RSession.function? (name : Text) (s : RSession σ φ) : Option φ :=
  match s.globalEnv name with
  | some (.func f) => some f
  | _ => none

/-- The search goes on behind the global environment. -/
def RCode.findFun (code : RCode σ φ) (name : Text) (s : RSession σ φ) : Option φ :=
  s.function? name <|> code.attached name s.rest

/-- The function that the executor's call by name finds. -/
def RCode.callee (code : RCode σ φ) (name : Text) (args : List (Text × ArgValue))
    (s : RSession σ φ) : Option φ :=
  if args = [] then s.function? name else code.findFun name s

/-- R code that the executor does not call as a task's function. -/
def untraced (x : SessionM (RSession σ φ) α) : SessionM (Traced σ φ) α := do
  let t ← get
  let (result, session) := exec x t.session
  set { t with session := session }
  match result with
  | .ok a => return a
  | .error e => throw e

/-- Call what was found. -/
def invoke (code : RCode σ φ) (found : Option φ) (missing : CppException)
    (args : List (Text × ArgValue)) (a : Affinity) : SessionM (Traced σ φ) SEXP :=
  match found with
  | none => throw missing
  | some f => do
      modify fun t => { t with invoked := t.invoked ++ [f] }
      untraced (code.apply f args a)

/-- `Rcpp::Function` takes the value of the name in the global environment and accepts
functions only; `do.call` looks for a function from there on. -/
def runtime (code : RCode σ φ) : Runtime (Traced σ φ) where
  readable path t := code.readable path t.session.rest
  source path a := untraced (code.source path a)
  globalEnvExists name _ := do return ((← get).session.globalEnv name).isSome
  callClosure name a := do
    invoke code ((← get).session.function? name)
      ⟨.rcpp, "Cannot convert object to a function".toList⟩ [] a
  doCall name args a := do
    invoke code (code.findFun name (← get).session)
      ⟨.rcpp, "could not find function \"".toList ++ name ++ ['"']⟩ args a
  compssUnserialize path a := untraced (code.compssUnserialize path a)
  compssSerialize x path method a := untraced (code.compssSerialize x path method a)
  stod := code.stod

@[simp] theorem exec_untraced (x : SessionM (RSession σ φ) α) (t : Traced σ φ) :
    exec (untraced x) t = ((exec x t.session).1, { t with session := (exec x t.session).2 }) := by
  rcases h : exec x t.session with ⟨_ | _, s⟩ <;> simp [untraced, exec_bind, h]

/-- The executor calls the function that it finds, or none. -/
theorem exec_callFunction (code : RCode σ φ) (name : Text) (args : List (Text × ArgValue))
    (a : Affinity) (t : Traced σ φ) :
    (exec (callFunction (runtime code) name args a) t).2.invoked =
        t.invoked ++ (code.callee name args t.session).toList ∧
      (code.callee name args t.session = none →
        ∃ e, (exec (callFunction (runtime code) name args a) t).1 = .error e) := by
  have hinvoke : ∀ (found : Option φ) (missing : CppException),
      (exec (invoke code found missing args a) t).2.invoked = t.invoked ++ found.toList ∧
        (found = none → ∃ e, (exec (invoke code found missing args a) t).1 = .error e) := by
    intro found missing
    cases found with
    | none => simp [invoke]
    | some f => simp [invoke, exec_bind]
  unfold callFunction RCode.callee
  split
  next hnil =>
    subst hnil
    simpa [runtime, exec_bind] using hinvoke (t.session.function? name) _
  next =>
    simpa [runtime, exec_bind] using hinvoke (code.findFun name t.session) _

end

section
variable {ρ : Type} {I : ρ → Prop} {params : List Text}

theorem keeps_getParam (index : ℤ) : Keeps I (getParam params index : SessionM ρ Text) := by
  unfold getParam
  split
  · exact .pure _
  · exact keeps_throw _

theorem keeps_getInt (index : ℤ) : Keeps I (getInt params index : SessionM ρ ℤ) := by
  apply (keeps_getParam index).bind
  intro token
  split
  · exact .pure _
  · exact keeps_throw _

theorem keeps_getWords (index : ℤ) (n : ℕ) :
    Keeps I (getWords params index n : SessionM ρ (List Text)) := by
  induction n generalizing index with
  | zero => exact .pure _
  | succ n ih => exact (keeps_getParam index).bind fun _ => (ih _).bind fun _ => .pure _

variable {rt : Runtime ρ} {a : Affinity}

theorem keeps_buildArg (h : ∀ path, Keeps I (rt.compssUnserialize path a)) (first : ℤ) :
    Keeps I (buildArg rt a params first) := by
  have hread (path : Text) : Keeps I (unserializeArg rt a path) :=
    ((h path).bind fun _ => .pure _).tryCatch fun e => keeps_throw _
  apply (keeps_getParam first).bind
  intro typeCode
  apply (keeps_getParam (first + 3)).bind
  intro argName
  split_ifs
  · exact (keeps_getParam _).bind fun _ => .pure _
  · exact (keeps_getInt _).bind fun _ => .pure _
  · apply (keeps_getParam _).bind
    intro value
    split
    · exact .pure _
    · exact keeps_throw _
  · exact (keeps_getInt _).bind fun _ => (keeps_getWords _ _).bind fun _ => .pure _
  · apply (keeps_getParam _).bind
    intro contentType
    apply (keeps_getParam _).bind
    intro value
    exact .ite ((hread _).bind fun _ => .pure _) (.pure _)
  · exact .pure _

/-- Decoding the arguments keeps what reading their files keeps. -/
theorem keeps_buildFunctionArgs (h : ∀ path, Keeps I (rt.compssUnserialize path a)) :
    Keeps I (buildFunctionArgs rt a params) := by
  have hargs (first : ℤ) (n : ℕ) : Keeps I (buildArgs rt a params first n) := by
    induction n generalizing first with
    | zero => exact .pure _
    | succ n ih => exact (keeps_buildArg h first).bind fun _ => (ih _).bind fun _ => .pure _
  apply (keeps_getInt _).bind
  intro numOfNodes
  apply (keeps_getParam _).bind
  intro hasTarget
  apply (keeps_getInt _).bind
  intro numReturns
  apply (keeps_getInt _).bind
  intro numOfArgs
  apply Keeps.ite
  · exact (keeps_throw _).bind fun _ => (hargs _ _).bind fun _ => .pure _
  · exact (hargs _ _).bind fun _ => .pure _

end

end RCompss.Executor
