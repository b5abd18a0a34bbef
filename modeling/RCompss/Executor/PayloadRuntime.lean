import RCompss.Executor.PayloadTask

/-! An R session for any functions of its modules, which remembers the module it sourced last. -/
namespace RCompss.Executor
open RCompss.Library RCompss.Payload

/-- What R makes of an error on its way through a function. -/
def throughR : Raised → CppException
  | .exception e => ⟨.rcpp, e.what⟩
  | .rError message => ⟨.rcpp, message⟩

/-- A call by name of a function of the module sourced last. -/
def applySourced (F : Functions) (func : Text) (args : List (Text × ArgValue)) :
    SessionM (Node Text) SEXP := do
  match F (← get).session func args with
  | some v => return v
  | none => throw ⟨.rcpp, "the function raised".toList⟩

def payloadRuntime (d : Packages) (env : Option Text) (F : Functions)
    (stod : Text → Option (BitVec 64)) : Runtime (Node Text) where
  readable _ _ := true
  source path _ := modify fun n => { n with session := path }
  globalEnvExists _ _ := return true
  callClosure func _ := applySourced F func []
  doCall func args _ := applySourced F func args
  compssUnserialize path _ := do
    match rcompssUnserialize d path ((← get).files path) with
    | .ok v => return v
    | .error e => throw (throughR e)
  compssSerialize x path method _ := do
    let n ← get
    let (result, content) := exec (rcompssSerialize d env x path method) (n.files path)
    set { n with files := Function.update n.files path content }
    match result with
    | .ok _ => return
    | .error e => throw e
  stod := stod

variable {d : Packages} {env : Option Text} {F : Functions} {stod : Text → Option (BitVec 64)}

theorem callFunction_payloadRuntime (func : Text) (args : List (Text × ArgValue)) (a : Affinity) :
    callFunction (payloadRuntime d env F stod) func args a = applySourced F func args := by
  unfold callFunction
  split
  next h =>
    rw [h]
    rfl
  next => rfl

theorem exec_applySourced (func : Text) (args : List (Text × ArgValue)) (n : Node Text) :
    match F n.session func args with
    | some v => exec (applySourced F func args) n = (.ok v, n)
    | none => ∃ e, exec (applySourced F func args) n = (.error e, n) := by
  unfold applySourced
  rw [exec_bind, exec_get]
  simp only
  cases F n.session func args with
  | some v => rfl
  | none => exact ⟨_, rfl⟩

theorem payloadRuntime_uses : UsesPayloads (payloadRuntime d env F stod) d env where
  unserialize path a n := by
    simp only [payloadRuntime]
    rw [exec_bind, exec_get]
    simp only
    cases rcompssUnserialize d path (n.files path) with
    | ok v => rfl
    | error e => exact ⟨_, rfl⟩
  serialize x path method a n := by
    simp only [payloadRuntime]
    rw [exec_bind, exec_get]
    simp only
    rcases exec (rcompssSerialize d env x path method) (n.files path) with ⟨e | ⟨⟩, content⟩
    · exact ⟨e, rfl⟩
    · rfl
  source _ _ _ := rfl
  globalEnvExists _ _ _ := rfl
  call func args a n := by
    have hcall := exec_applySourced (F := F) func args n
    rw [callFunction_payloadRuntime]
    cases hF : F n.session func args with
    | some v =>
      rw [hF] at hcall
      rw [show exec (applySourced F func args) n = (.ok v, n) from hcall]
    | none =>
      rw [hF] at hcall
      obtain ⟨e, hraise⟩ := hcall
      rw [hraise]

theorem payloadRuntime_computes : Computes (payloadRuntime d env F stod) F := by
  intro message a n built result n' hcalled
  obtain ⟨-, hsource, hfound, hdecoded, hcall⟩ := hcalled
  rename_i s₁ s₂ s₃
  have h₁ : s₁.session = message.moduleFile := by cases hsource; rfl
  have h₂ : s₂ = s₁ := by cases hfound; rfl
  have huses : UsesPayloads (payloadRuntime d env F stod) d env := payloadRuntime_uses
  have hkeeps : Keeps (fun n : Node Text => n.session = s₂.session)
      (buildFunctionArgs (payloadRuntime d env F stod) a message.params) :=
    keeps_buildFunctionArgs fun path => by
      intro n hn
      have hread := huses.unserialize path a n
      unfold Meets
      split at hread
      · rw [hread]
        exact hn
      · obtain ⟨e, hraise⟩ := hread
        rw [hraise]
        exact hn
  have h₃ : s₃.session = s₂.session := by
    have hrun := hkeeps s₂ rfl
    rw [Meets, hdecoded] at hrun
    exact hrun
  rw [callFunction_payloadRuntime] at hcall
  have happly := exec_applySourced (F := F) message.func built.args s₃
  rw [h₃, h₂, h₁] at happly
  cases hF : F message.moduleFile message.func built.args with
  | some v =>
    rw [hF] at happly
    cases hcall.symm.trans happly
    rfl
  | none =>
    rw [hF] at happly
    obtain ⟨e, hraise⟩ := happly
    cases hcall.symm.trans hraise

/-- In such a session a task succeeds when its function returns and the result can be written. -/
theorem payloadRuntime_succeeds (t : LaidOut) (a : Affinity) (n : Node Text) {x : SEXP}
    {content : Option Bytes} (hvalue : t.value stod F (readable d n.files) = some x)
    (hwrite : exec (rcompssSerialize d env x t.output t.method) (n.files t.output) =
      (.ok (), content)) :
    ∃ path n', Succeeds (payloadRuntime d env F stod) t.message a n path n' := by
  let n₁ : Node Text := { n with session := t.message.moduleFile }
  obtain ⟨vs, hvs, hF⟩ := Option.bind_eq_some_iff.mp hvalue
  have huses : UsesPayloads (payloadRuntime d env F stod) d env := payloadRuntime_uses
  have hdecoded := exec_buildFunctionArgs (a := a) huses t.layout n₁
  have hcall := exec_applySourced (F := F) t.message.func (passed t.layout.records vs) n₁
  have hserialize := huses.serialize x t.output t.method a n₁
  rw [show t.layout.records.mapM (ArgRecord.valueIn (payloadRuntime d env F stod).stod
    (readable d n₁.files)) = some vs from hvs, ← t.params] at hdecoded
  have happly : callFunction (payloadRuntime d env F stod) t.message.func
      (passed t.layout.records vs) a = _ := callFunction_payloadRuntime _ _ a
  rw [show F n₁.session t.message.func (passed t.layout.records vs) = some x from hF,
    ← happly] at hcall
  rw [show exec (rcompssSerialize d env x t.output t.method) (n₁.files t.output) = (.ok (), content)
    from hwrite] at hserialize
  have hcalled : Called (payloadRuntime d env F stod) t.message a n
      ⟨passed t.layout.records vs, (t.layout.recordsEnd : ℤ) + 1, t.layout.numReturns⟩ x n₁ := by
    have hsourced : exec ((payloadRuntime d env F stod).source t.message.moduleFile a) n =
      (.ok (), n₁) := rfl
    have hfound : exec ((payloadRuntime d env F stod).globalEnvExists t.message.func a) n₁ =
      (.ok true, n₁) := rfl
    exact .mk rfl hsourced hfound hdecoded hcall
  have hone : (0 : ℤ) < t.layout.numReturns := by simp [Layout.numReturns, t.returned]
  have hfile : exec (returnFile t.message.params ((t.layout.recordsEnd : ℤ) + 1)) n₁ =
      (.ok (t.method, t.output), n₁) := by
    rw [t.params, t.layout.returnFile_recordsEnd t.returned]
    rfl
  exact ⟨_, _, .withReturn hcalled hone hfile hserialize⟩

end RCompss.Executor
