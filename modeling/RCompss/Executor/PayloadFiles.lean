import RCompss.Executor.Decoding
import RCompss.Executor.GlobalEnvironment
import RCompss.Payload.Store

/-! What a task does to the payload files: it reads those of its arguments and writes that of
its result. -/
namespace RCompss.Executor
open RCompss.Library RCompss.Payload

/-- The payload files an executor sees, and the rest of its R session. -/
structure Node (ρ : Type) where
  files : Files
  session : ρ

section
variable {ρ : Type}

/-- R reads and writes payloads as the package does, and nothing else in a task touches them. -/
structure UsesPayloads (rt : Runtime (Node ρ)) (d : Packages) (env : Option Text) : Prop where
  unserialize : ∀ path a n, match rcompssUnserialize d path (n.files path) with
    | .ok v => exec (rt.compssUnserialize path a) n = (.ok v, n)
    | .error _ => ∃ e, exec (rt.compssUnserialize path a) n = (.error e, n)
  serialize : ∀ x path method a n,
    match exec (rcompssSerialize d env x path method) (n.files path) with
    | (.ok _, content) => exec (rt.compssSerialize x path method a) n =
        (.ok (), { n with files := Function.update n.files path content })
    | (.error _, content) => ∃ e, exec (rt.compssSerialize x path method a) n =
        (.error e, { n with files := Function.update n.files path content })
  source : ∀ path a n, (exec (rt.source path a) n).2.files = n.files
  globalEnvExists : ∀ func a n, (exec (rt.globalEnvExists func a) n).2.files = n.files
  call : ∀ func args a n, (exec (callFunction rt func args a) n).2.files = n.files

/-- What a function of a module makes of its arguments, when it returns. -/
abbrev Functions := Text → Text → List (Text × ArgValue) → Option SEXP

/-- A task's function gives what `F` says, whatever ran before it on the executor. -/
def Computes (rt : Runtime ρ) (F : Functions) : Prop :=
  ∀ message a s built result t, Called rt message a s built result t →
    F message.moduleFile message.func built.args = some result

namespace ArgRecord

/-- The file that the argument of a record is read from. -/
def file? : ArgRecord → Option Text
  | .scalar typeCode _ _ _ contentType value _ =>
      if typeCode = "10".toList ∧ contentType ≠ "null".toList then some (stripValueSuffix value)
      else none
  | .string .. => none

/-- The argument, when the files read as `σ`. -/
def valueIn (stod : Text → Option (BitVec 64)) (σ : Text → Option SEXP) :
    ArgRecord → Option ArgValue
  | .scalar typeCode _ _ _ contentType value _ =>
      if typeCode = "0".toList then some (.lgl (parseBool value))
      else if typeCode = "4".toList then (stoi value).map .int
      else if typeCode = "7".toList then (stod value).map .real
      else if typeCode = "10".toList then
        if contentType ≠ "null".toList then (σ (stripValueSuffix value)).map .object
        else some (.str (stripValueSuffix value))
      else some .null
  | .string _ _ _ _ words _ => some (.str (List.intercalate [' '] words))

/-- No file matters but the one of the record. -/
theorem valueIn_congr {stod : Text → Option (BitVec 64)} {σ τ : Text → Option SEXP}
    (r : ArgRecord) (h : ∀ path ∈ r.file?, σ path = τ path) :
    r.valueIn stod σ = r.valueIn stod τ := by
  cases r with
  | scalar typeCode _ _ _ contentType value _ =>
    simp only [valueIn]
    by_cases hfile : typeCode = "10".toList ∧ contentType ≠ "null".toList
    · have hsame : σ (stripValueSuffix value) = τ (stripValueSuffix value) := by
        apply h
        rw [file?, if_pos hfile]
        rfl
      rw [hsame]
    · by_cases hcode : typeCode = "10".toList
      · have hnull : ¬ contentType ≠ "null".toList := fun hne => hfile ⟨hcode, hne⟩
        simp only [if_neg hnull]
      · simp only [if_neg hcode]
  | string => rfl

end ArgRecord

/-- The files that a list of records is read from. -/
def inputFiles (rs : List ArgRecord) : List Text := rs.filterMap ArgRecord.file?

/-- What a task's function makes of its records. -/
def taskValue (stod : Text → Option (BitVec 64)) (f : List (Text × ArgValue) → Option SEXP)
    (rs : List ArgRecord) (σ : Text → Option SEXP) : Option SEXP := do
  let values ← rs.mapM (ArgRecord.valueIn stod σ)
  f (passed rs values)

/-- Nothing matters to a task but the files it reads. -/
theorem taskValue_congr {stod : Text → Option (BitVec 64)}
    {f : List (Text × ArgValue) → Option SEXP} {rs : List ArgRecord} {σ τ : Text → Option SEXP}
    (h : ∀ path ∈ inputFiles rs, σ path = τ path) :
    taskValue stod f rs σ = taskValue stod f rs τ := by
  have hvalues : ∀ r ∈ rs, r.valueIn stod σ = r.valueIn stod τ := fun r hr =>
    r.valueIn_congr fun path hpath => h path (List.mem_filterMap.mpr ⟨r, hr, hpath⟩)
  have hall : rs.mapM (ArgRecord.valueIn stod σ) = rs.mapM (ArgRecord.valueIn stod τ) := by
    clear h
    induction rs with
    | nil => rfl
    | cons r rs ih =>
      rw [List.mapM_cons, List.mapM_cons, hvalues r List.mem_cons_self,
        ih fun r' hr' => hvalues r' (List.mem_cons_of_mem r hr')]
  unfold taskValue
  rw [hall]

variable {rt : Runtime (Node ρ)} {d : Packages} {env : Option Text} {a : Affinity}

/-- A record decodes to its value in the files at hand, and touches none. -/
theorem exec_decode (h : UsesPayloads rt d env) (r : ArgRecord) (n : Node ρ) :
    match r.valueIn rt.stod (readable d n.files) with
    | some v => exec (r.decode rt a) n = (.ok v, n)
    | none => ∃ e, exec (r.decode rt a) n = (.error e, n) := by
  cases r with
  | string => rfl
  | scalar typeCode second third name contentType value notString =>
    unfold ArgRecord.valueIn ArgRecord.decode
    by_cases h0 : typeCode = "0".toList
    · simp only [if_pos h0, exec_pure]
    by_cases h4 : typeCode = "4".toList
    · simp only [if_neg h0, if_pos h4]
      cases stoi value with
      | none => exact ⟨_, rfl⟩
      | some k => rfl
    by_cases h7 : typeCode = "7".toList
    · simp only [if_neg h0, if_neg h4, if_pos h7]
      cases rt.stod value with
      | none => exact ⟨_, rfl⟩
      | some x => rfl
    by_cases h10 : typeCode = "10".toList
    · simp only [if_neg h0, if_neg h4, if_neg h7, if_pos h10]
      by_cases hnull : contentType ≠ "null".toList
      · simp only [if_pos hnull]
        have hread := h.unserialize (stripValueSuffix value) a n
        unfold unserializeArg readable
        rw [exec_tryCatch, exec_bind]
        cases hfile : rcompssUnserialize d (stripValueSuffix value)
            (n.files (stripValueSuffix value)) with
        | ok v =>
          rw [hfile] at hread
          rw [show exec (rt.compssUnserialize (stripValueSuffix value) a) n = (.ok v, n) from hread]
          rfl
        | error e =>
          rw [hfile] at hread
          obtain ⟨e', hraise⟩ := hread
          rw [hraise]
          exact ⟨_, rfl⟩
      · simp only [if_neg hnull, exec_pure]
    · simp only [if_neg h0, if_neg h4, if_neg h7, if_neg h10, exec_pure]

theorem exec_decodeRecords (h : UsesPayloads rt d env) (rs : List ArgRecord) (n : Node ρ) :
    match rs.mapM (ArgRecord.valueIn rt.stod (readable d n.files)) with
    | some vs => exec (decodeRecords rt a rs) n = (.ok ((rs.map ArgRecord.name).zip vs), n)
    | none => ∃ e, exec (decodeRecords rt a rs) n = (.error e, n) := by
  induction rs with
  | nil => rfl
  | cons r rs ih =>
    have hfirst := exec_decode (a := a) h r n
    rw [List.mapM_cons]
    unfold decodeRecords
    cases hr : r.valueIn rt.stod (readable d n.files) with
    | none =>
      rw [hr] at hfirst
      obtain ⟨e, hraise⟩ := hfirst
      exact ⟨e, exec_bind_error hraise⟩
    | some v =>
      rw [hr] at hfirst
      rw [exec_bind_ok (show exec (r.decode rt a) n = (.ok v, n) from hfirst)]
      cases hrs : rs.mapM (ArgRecord.valueIn rt.stod (readable d n.files)) with
      | none =>
        rw [hrs] at ih
        obtain ⟨e, hraise⟩ := ih
        exact ⟨e, exec_bind_error hraise⟩
      | some vs =>
        rw [hrs] at ih
        have hrest : exec (decodeRecords rt a rs) n =
          (.ok ((rs.map ArgRecord.name).zip vs), n) := ih
        exact exec_bind_ok hrest

end

end RCompss.Executor
