import RCompss.Executor.Message
import RCompss.Library.Exec

/-! The executor process: its R session, its affinity, and what it emits. -/
namespace RCompss.Executor
open RCompss.Library

/-- The classes the handlers tell apart. -/
inductive ExceptionClass where
  | rcpp | std | unknown
  deriving DecidableEq, Repr

structure CppException where
  cls : ExceptionClass
  what : Text
  deriving DecidableEq

/-- `std::vector::at` past the end. -/
def outOfRange : CppException := ⟨.std, "vector::_M_range_check".toList⟩

/-- An entry of the argument list handed to R. -/
inductive ArgValue where
  | lgl (value : ℤ)
  | int (value : ℤ)
  | real (value : BitVec 64)
  | str (value : Text)
  | object (value : SEXP)
  | null

/-- What the process shows the code it runs of the resources bound to it. -/
structure Affinity where
  COMPSS_BINDED_CPUS : Option Text
  COMPSS_NUM_CPUS : Option Text
  COMPSS_BINDED_GPUS : Option Text
  CUDA_VISIBLE_DEVICES : Option Text
  GPU_DEVICE_ORDINAL : Option Text
  mask : Finset ℕ
  deriving DecidableEq

section
variable (ρ : Type)

/-- R code over a session `ρ`: it returns or raises, and may change the session. -/
abbrev SessionM := Exec ρ CppException

/-- The R session and the files behind it. R code sees the affinity of the process, and
sets none of it. -/
structure Runtime where
  /-- `std::ifstream(path).good()`. -/
  readable : Text → ρ → Bool
  source : Text → Affinity → SessionM ρ Unit
  globalEnvExists : Text → Affinity → SessionM ρ Bool
  /-- `(*global_env_)[func]()`. -/
  callClosure : Text → Affinity → SessionM ρ SEXP
  doCall : Text → List (Text × ArgValue) → Affinity → SessionM ρ SEXP
  compssUnserialize : Text → Affinity → SessionM ρ SEXP
  compssSerialize : SEXP → Text → Text → Affinity → SessionM ρ Unit
  /-- `std::stod`; `none` for its exceptions. -/
  stod : Text → Option (BitVec 64)

structure Process where
  session : ρ
  affinity : Affinity
  /-- Extrae events, type and value. -/
  events : List (ℕ × ℕ)
  /-- Lines written to the output fifo. -/
  output : List Text
  /-- The functions called so far, each with the affinity it saw. -/
  calls : List (Text × Affinity)

abbrev ProcessM := Exec (Process ρ) CppException

end

section
variable {ρ α : Type}

/-- `Extrae_eventandcounters`. -/
def emit (type value : ℕ) : ProcessM ρ Unit :=
  modify fun p => { p with events := p.events ++ [(type, value)] }

/-- Write a line to the output fifo and flush. -/
def writeLine (line : Text) : ProcessM ρ Unit :=
  modify fun p => { p with output := p.output ++ [line] }

/-- Run R code in the session, under the affinity of the process. -/
def inR (code : Affinity → SessionM ρ α) : ProcessM ρ α := do
  let p ← get
  let (result, session) := exec (code p.affinity) p.session
  set { p with session := session }
  match result with
  | .ok a => return a
  | .error e => throw e

/-- Note a function call with the affinity it sees. -/
def noteCall (func : Text) : ProcessM ρ Unit :=
  modify fun p => { p with calls := p.calls ++ [(func, p.affinity)] }

@[simp] theorem exec_emit (type value : ℕ) (p : Process ρ) :
    exec (emit type value) p = (.ok (), { p with events := p.events ++ [(type, value)] }) := rfl

@[simp] theorem exec_writeLine (line : Text) (p : Process ρ) :
    exec (writeLine line) p = (.ok (), { p with output := p.output ++ [line] }) := rfl

@[simp] theorem meets_emit {type value : ℕ} {p : Process ρ} {Q : Unit → Process ρ → Prop}
    {E : CppException → Process ρ → Prop} :
    Meets (emit type value) p Q E ↔ Q () { p with events := p.events ++ [(type, value)] } :=
  Iff.rfl

@[simp] theorem meets_writeLine {line : Text} {p : Process ρ} {Q : Unit → Process ρ → Prop}
    {E : CppException → Process ρ → Prop} :
    Meets (writeLine line) p Q E ↔ Q () { p with output := p.output ++ [line] } := Iff.rfl

@[simp] theorem meets_noteCall {func : Text} {p : Process ρ} {Q : Unit → Process ρ → Prop}
    {E : CppException → Process ρ → Prop} :
    Meets (noteCall func) p Q E ↔ Q () { p with calls := p.calls ++ [(func, p.affinity)] } :=
  Iff.rfl

@[simp] theorem exec_noteCall (func : Text) (p : Process ρ) :
    exec (noteCall func) p =
      (.ok (), { p with calls := p.calls ++ [(func, p.affinity)] }) := rfl

/-- R code touches nothing but the session. -/
@[simp] theorem exec_inR (code : Affinity → SessionM ρ α) (p : Process ρ) :
    exec (inR code) p = ((exec (code p.affinity) p.session).1,
      { p with session := (exec (code p.affinity) p.session).2 }) := by
  rcases h : exec (code p.affinity) p.session with ⟨_ | _, s⟩ <;> simp [inR, exec_bind, h]

/-- To run R code, look at how it ends. -/
theorem meets_inR {code : Affinity → SessionM ρ α} {p : Process ρ} {Q : α → Process ρ → Prop}
    {E : CppException → Process ρ → Prop}
    (hok : ∀ a s, exec (code p.affinity) p.session = (.ok a, s) → Q a { p with session := s })
    (herr : ∀ e s, exec (code p.affinity) p.session = (.error e, s) →
      E e { p with session := s }) : Meets (inR code) p Q E := by
  unfold Meets
  rw [exec_inR]
  rcases h : exec (code p.affinity) p.session with ⟨e | a, s⟩
  · exact herr e s h
  · exact hok a s h

end

end RCompss.Executor
