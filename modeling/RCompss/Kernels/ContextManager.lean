import Mathlib.Data.List.AList
import RCompss.Kernels.RunContext
import RCompss.Text

/-! `ContextManager` and its adapters, over any build of `RunContext`. -/
namespace RCompss.Kernels
open RCompss.Library

/-- What a build makes of `RunContext`: its members, what they work on, and its member
functions, which return or throw and change both. -/
structure Build where
  Context : Type
  Env : Type
  /-- `USE_CUDA`. -/
  cuda : Bool
  construct : OperationPlacement → RunMode → Env → Except GpuError Context × Env
  /-- The constructor throws for GPU contexts only. -/
  construct_cpu : ∀ mode env, ∃ c env', construct .CPU mode env = (.ok c, env')
  destroy : Context → Env → Env
  call : ContextOp → Context → Env → Except GpuError (Option ℕ) × Context × Env
  placement : Context → OperationPlacement
  runMode : Context → RunMode

/-- The build with CUDA. -/
def cudaBuild : Build where
  Context := RunContext
  Env := Cuda
  cuda := true
  construct p mode cuda :=
    let (r, m) := exec (RunContext.construct p mode) ⟨.raw, cuda⟩
    (r.map fun _ => m.this, m.tick.cuda)
  construct_cpu _ _ := ⟨_, _, rfl⟩
  destroy c cuda := (exec RunContext.destroy ⟨c, cuda⟩).2.tick.cuda
  call op c cuda :=
    let (r, m) := exec op.run ⟨c, cuda⟩
    (r, m.this, m.tick.cuda)
  placement := RunContext.mOperationPlacement
  runMode := RunContext.mRunMode

/-- Without CUDA a context is its two fields, and the placement is always CPU. -/
structure PlainContext where
  mRunMode : RunMode
  mOperationPlacement : OperationPlacement

def plainBuild : Build where
  Context := PlainContext
  Env := Unit
  cuda := false
  construct _ mode env := (.ok ⟨mode, .CPU⟩, env)
  construct_cpu _ _ := ⟨_, _, rfl⟩
  destroy _ env := env
  call op c env :=
    match op with
    | .setOperationPlacement _ => (.ok none, { c with mOperationPlacement := .CPU }, env)
    | .setRunMode mode => (.ok none, { c with mRunMode := mode }, env)
    | _ => (.ok none, c, env)
  placement := PlainContext.mOperationPlacement
  runMode := PlainContext.mRunMode

/-- Addresses of contexts. -/
abbrev Ptr := ℕ

def nullptr : Ptr := 0

/-- `"default"`. -/
def defaultName : Text := "default".toList

structure Manager where
  /-- The order of iteration, which is not specified, makes no difference below. -/
  mContexts : AList fun _ : Text => Ptr
  mpCurrentContext : Ptr
  /-- Stays null without CUDA. -/
  mpGPUContext : Ptr

def Manager.pointers (m : Manager) : List Ptr := m.mContexts.entries.map Sigma.snd

/-- A context in memory. -/
structure Cell (b : Build) where
  context : b.Context
  /-- Made by `GetInstance` or `CreateRunContext`, not by `GetGPUContext`. -/
  registry : Bool

structure World (b : Build) where
  mpInstance : Option Manager
  heap : Ptr → Option (Cell b)
  next : Ptr
  /-- A context was used or deleted that was not there. -/
  misused : Bool
  env : b.Env

/-- Before the first call. -/
def World.initial {b : Build} (env : b.Env) : World b := ⟨none, fun _ => none, 1, false, env⟩

inductive ManagerError where
  | noStream (name : Text)
  | outOfRange
  | notRetrieved (name : Text)
  | noCurrent
  | noCuda
  | invalidPlacement (placement : Text)
  | invalidRunMode (mode : Text)
  | context (e : GpuError)
  /-- Where the behaviour of C++ is undefined. -/
  | undefined
  deriving DecidableEq

def ManagerError.what : ManagerError → Text
  | noStream name => "No stream with that name: ".toList ++ name
  | outOfRange => "unordered_map::at".toList
  | notRetrieved name => "Failed to retrieve context: ".toList ++ name
  | noCurrent => "No current operation context available".toList
  | noCuda => "Code is compiled without CUDA support".toList
  | invalidPlacement placement => "Invalid operation placement: ".toList ++ placement
  | invalidRunMode mode => "Invalid run mode: ".toList ++ mode
  | context e => e.what.toList
  | undefined => "undefined behaviour".toList

/-- `GetInputOperationPlacement`. -/
def getInputOperationPlacement (aPlacement : Text) : Except ManagerError OperationPlacement :=
  let placement := aPlacement.map Char.toLower
  if placement = "gpu".toList then .ok .GPU
  else if placement = "cpu".toList then .ok .CPU
  else .error (.invalidPlacement aPlacement)

/-- `GetInputRunMode`. -/
def getInputRunMode (aRunMode : Text) : Except ManagerError RunMode :=
  let run_mode := aRunMode.map Char.toLower
  if run_mode = "sync".toList then .ok .SYNC
  else if run_mode = "async".toList then .ok .ASYNC
  else .error (.invalidRunMode aRunMode)

abbrev ManagerM (b : Build) := Exec (World b) ManagerError

section
variable {b : Build}

def modifyInstance (f : Manager → Manager) : ManagerM b Unit :=
  modify fun w => { w with mpInstance := w.mpInstance.map f }

/-- `new RunContext(..)`. -/
def newContext (p : OperationPlacement) (mode : RunMode) (registry : Bool) :
    ManagerM b Ptr := do
  let w ← get
  match b.construct p mode w.env with
  | (.ok c, env) =>
      set { w with
        heap := Function.update w.heap w.next (some ⟨c, registry⟩)
        next := w.next + 1
        env }
      return w.next
  | (.error e, env) =>
      set { w with env }
      throw (.context e)

/-- Undefined behaviour, put on record. -/
def misuse {α : Type} : ManagerM b α := do
  modify fun w => { w with misused := true }
  throw .undefined

/-- `p->`. -/
def deref (p : Ptr) : ManagerM b (Cell b) := do
  let w ← get
  match w.heap p with
  | some cell => return cell
  | none => misuse

/-- A member function of the context at an address. -/
def onContext (p : Ptr) (op : ContextOp) : ManagerM b Unit := do
  let cell ← deref p
  let w ← get
  let (r, context, env) := b.call op cell.context w.env
  set { w with heap := Function.update w.heap p (some { cell with context }), env }
  match r with
  | .ok _ => pure ()
  | .error e => throw (.context e)

/-- `delete`. -/
def deleteContext (p : Ptr) : ManagerM b Unit :=
  onlyIf (p ≠ nullptr) do
    let cell ← deref p
    modify fun w => { w with
      heap := Function.update w.heap p none
      env := b.destroy cell.context w.env }

namespace ContextManager

/-- The manager that `this` points to. -/
def this : ManagerM b Manager := do
  let w ← get
  match w.mpInstance with
  | some m => return m
  | none => misuse

def getInstance : ManagerM b Unit := do
  let w ← get
  onlyIf (w.mpInstance.isNone = true) do
    set { w with mpInstance := some ⟨∅, nullptr, nullptr⟩ }
    let context ← newContext .CPU .SYNC true
    modifyInstance fun m => { m with mContexts := m.mContexts.insert defaultName context }
    modifyInstance fun m => { m with
      mpCurrentContext := (m.mContexts.lookup defaultName).getD nullptr }

def getContext (aRunContextName : Text) : ManagerM b Ptr := do
  let m ← this
  match m.mContexts.lookup aRunContextName with
  | none => throw (.noStream aRunContextName)
  | some p => return p

def setOperationContext (aRunContext : Ptr) : ManagerM b Unit :=
  modifyInstance fun m => { m with mpCurrentContext := aRunContext }

def syncContext (aRunContextName : Text) : ManagerM b Unit := do
  let p ← getContext aRunContextName
  onContext p .sync

def syncMainContext : ManagerM b Unit := do
  let m ← this
  match m.mContexts.lookup defaultName with
  | none => throw .outOfRange
  | some p => onContext p .sync

def syncAll : ManagerM b Unit := do
  let m ← this
  m.pointers.forM fun context => onlyIf (context ≠ nullptr) (onContext context .sync)

def destroyInstance : ManagerM b Unit := do
  let w ← get
  match w.mpInstance with
  | none => pure ()
  | some m =>
      syncAll
      m.pointers.forM deleteContext
      deleteContext m.mpGPUContext
      modify fun w => { w with mpInstance := none }

def getOperationContext : ManagerM b Ptr := do
  getInstance
  let m ← this
  if m.mpCurrentContext = nullptr then throw .noCurrent else return m.mpCurrentContext

def createRunContext (aRunContextName : Text) : ManagerM b Ptr := do
  getInstance
  let run_context ← newContext .CPU .SYNC true
  modifyInstance fun m => { m with mContexts := m.mContexts.insert aRunContextName run_context }
  return run_context

/-- The entry goes and the context with it. -/
def eraseContext (aRunContextName : Text) : ManagerM b Unit := do
  let deleted_context ← getContext aRunContextName
  onlyIf (deleted_context = nullptr) (throw (.notRetrieved aRunContextName))
  modifyInstance fun m => { m with mContexts := m.mContexts.erase aRunContextName }
  deleteContext deleted_context

def deleteRunContext (aRunContextName : Text) : ManagerM b Unit := do
  let m ← this
  -- GetContext throws before the check of `it` could
  let p ← getContext aRunContextName
  if m.mpCurrentContext = p then
    if aRunContextName = defaultName then
      -- "Cannot delete default RunContext"
      pure ()
    else
      let default_context ← getContext defaultName
      setOperationContext default_context
      eraseContext aRunContextName
  else eraseContext aRunContextName

def getGPUContext : ManagerM b Ptr :=
  if b.cuda then do
    getInstance
    let m ← this
    if m.mpGPUContext = nullptr then
      let p ← newContext .GPU .SYNC false
      modifyInstance fun m => { m with mpGPUContext := p }
      return p
    else return m.mpGPUContext
  else throw .noCuda

end ContextManager

/-- Calls of the manager and of the adapters, by any names and texts. -/
inductive ManagerOp where
  | getInstance
  | destroyInstance
  | createRunContext (name : Text)
  | deleteRunContext (name : Text)
  | setOperationContext (name : Text)
  | getOperationContext
  | getGPUContext
  | setOperationPlacement (name placement : Text)
  | getOperationPlacement (name : Text)
  | setRunMode (name mode : Text)
  | getRunMode (name : Text)
  | finalizeRunContext (name : Text)
  | syncContext (name : Text)
  | syncMainContext
  | syncAll
  | getNumOfContexts
  | getAllContextNames

/-- What a call answers. -/
inductive Answer where
  | done
  | pointer (p : Ptr)
  | text (s : String)
  | count (n : ℕ)
  | names (ns : List Text)

namespace ManagerOp
open ContextManager

def run : ManagerOp → ManagerM b Answer
  | getInstance => do
      ContextManager.getInstance
      return .done
  | destroyInstance => do
      ContextManager.destroyInstance
      return .done
  | createRunContext name => do
      let _ ← ContextManager.createRunContext name
      return .done
  | deleteRunContext name => do
      ContextManager.getInstance
      ContextManager.deleteRunContext name
      return .done
  | setOperationContext name => do
      ContextManager.getInstance
      let p ← getContext name
      ContextManager.setOperationContext p
      return .done
  | getOperationContext => return .pointer (← ContextManager.getOperationContext)
  | getGPUContext => return .pointer (← ContextManager.getGPUContext)
  | setOperationPlacement name placement => do
      let placement ← liftM (getInputOperationPlacement placement)
      ContextManager.getInstance
      let p ← getContext name
      onContext p (.setOperationPlacement placement)
      return .done
  | getOperationPlacement name => do
      ContextManager.getInstance
      let p ← getContext name
      let cell ← deref p
      return .text (match b.placement cell.context with | .CPU => "CPU" | .GPU => "GPU")
  | setRunMode name mode => do
      ContextManager.getInstance
      let mode ← liftM (getInputRunMode (mode.map Char.toLower))
      let p ← getContext name
      onContext p (.setRunMode mode)
      return .done
  | getRunMode name => do
      ContextManager.getInstance
      let p ← getContext name
      let cell ← deref p
      return .text (match b.runMode cell.context with | .SYNC => "SYNC" | .ASYNC => "ASYNC")
  | finalizeRunContext name => do
      ContextManager.getInstance
      ContextManager.syncContext name
      onlyIf (b.cuda = true) do
        let p ← getContext name
        onContext p .freeWorkBufferHost
      return .done
  | syncContext name => do
      ContextManager.getInstance
      ContextManager.syncContext name
      return .done
  | syncMainContext => do
      ContextManager.getInstance
      ContextManager.syncMainContext
      return .done
  | syncAll => do
      ContextManager.getInstance
      ContextManager.syncAll
      return .done
  | getNumOfContexts => do
      ContextManager.getInstance
      return .count (← this).mContexts.keys.length
  | getAllContextNames => do
      ContextManager.getInstance
      return .names (← this).mContexts.keys

/-- The state after a call, returned or thrown. -/
def step (op : ManagerOp) (w : World b) : World b := (exec op.run w).2

end ManagerOp
end
end RCompss.Kernels
