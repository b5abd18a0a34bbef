import RCompss.Payload.Transport
import RCompss.Submission.Futures
import RCompss.Submission.PayloadFiles
import RCompss.System.Run

/-! A call of a decorated function, from R on the master to R on an executor: what each of its
arguments is to the function there. -/
namespace RCompss.System
open RCompss.Library RCompss.Payload RCompss.Executor RCompss.Submission

/-- How the row of an argument gets to an executor: a value as text that stands for it, a path
behind a prefix and a colon. -/
inductive DeliversRow (stod : Text → Option (BitVec 64)) (delivered : SEXP → ArgValue) :
    ParameterRow → ArgRecord → Prop
  | value {row : ParameterRow} {record : ArgRecord} {v : SEXP} (given : row.value = .value v)
      (named : record.name = row.name) (noFile : record.file? = none)
      (reads : ∀ σ, record.valueIn stod σ = some (delivered v)) :
      DeliversRow stod delivered row record
  | path {row : ParameterRow} {path : Text} (q second third : Text)
      {notString : decimal row.compssType ≠ "8".toList} (given : row.value = .path path) :
      DeliversRow stod delivered row (.scalar (decimal row.compssType) second third row.name
        row.contentType (q ++ ':' :: path) notString)

/-- The runtime keeps the rows of a submission in order; the last is that of the result. -/
structure Delivers (stod : Text → Option (BitVec 64)) (delivered : SEXP → ArgValue)
    (t : TaskSubmission) (line : TaskLine) : Prop where
  func : line.message.func = t.signature
  rows : ∃ inputs result, (∀ i, submittedRow t i = (inputs ++ [result])[i]?) ∧
    List.Forall₂ (DeliversRow stod delivered) inputs line.layout.records ∧
    line.result.name = result.name ∧
    ∀ path, result.value = .path path → ∃ q, line.result.value = q ++ ':' :: path

/-- What an argument is to the function, when the files of earlier results read as `σ`. -/
def argumentIn (d : Packages) (delivered : SEXP → ArgValue) (r : Surroundings) (method : Text)
    (i : ℕ) (σ : Text → Option SEXP) (arg : Text × SEXP) : Option ArgValue :=
  let (type, contentType) := processSingleArgument r.inspect arg.2
  if type = 10 ∧ contentType = "object".toList then
    (transported d r.env (argumentPath r method i arg.1) method arg.2).map .object
  else if type = 10 ∧ contentType = "future_object".toList then
    match r.outputfile arg.2 with
    | .ok path => (σ path).map .object
    | .error _ => none
  else some (delivered arg.2)

def argumentsIn (d : Packages) (delivered : SEXP → ArgValue) (r : Surroundings) (method : Text)
    (i : ℕ) (σ : Text → Option SEXP) : Arguments → Option (List ArgValue)
  | [] => some []
  | arg :: arguments => do
      let value ← argumentIn d delivered r method i σ arg
      let values ← argumentsIn d delivered r method (i + 1) σ arguments
      return value :: values

section
variable {ρ : Type} {d : Packages} {stod : Text → Option (BitVec 64)}
  {delivered : SEXP → ArgValue} {r : Surroundings} {method : Text} {i : ℕ}

/-- A path arrives, if nothing of it is cut off. -/
theorem DeliversRow.ofPath {row : ParameterRow} {record : ArgRecord} {path : Text}
    (h : DeliversRow stod delivered row record) (hvalue : row.value = .path path)
    (htype : row.compssType = 10) (hcontent : row.contentType ≠ "null".toList)
    (hcolon : ':' ∉ path) : record.name = row.name ∧ record.file? = some path ∧
      ∀ σ, record.valueIn stod σ = (σ path).map .object := by
  cases h with
  | value given => cases given.symm.trans hvalue
  | path q second third given =>
    cases given.symm.trans hvalue
    have hstrip := (stripped_iff path).mpr hcolon q
    have hten : decimal row.compssType = "10".toList := by
      rw [htype]
      decide
    refine ⟨rfl, ?_, fun σ => ?_⟩
    · simp only [ArgRecord.file?]
      rw [if_pos ⟨hten, hcontent⟩, hstrip]
    · simp only [ArgRecord.valueIn]
      rw [hten, if_neg (by decide), if_neg (by decide), if_neg (by decide), if_pos rfl,
        if_pos hcontent, hstrip]

/-- The record of an argument is read from its payload or from the file of a future, and decodes
to what the argument is to the function. -/
theorem argument_delivered {arg : Text × SEXP} {value : ProcessedValue} {record : ArgRecord}
    (hvalue : StandsIn r method i arg value)
    (hrow : DeliversRow stod delivered (inputRow r.inspect arg value) record)
    (hcolon : ∀ path, value = .path path → ':' ∉ path) :
    record.name = arg.1 ∧
      (∀ path ∈ record.file?, IsFutureOf r arg.2 path ∨
        (IsWritten r.inspect arg.2 ∧ path = argumentPath r method i arg.1)) ∧
      ∀ σ, (IsWritten r.inspect arg.2 → σ (argumentPath r method i arg.1) =
          transported d r.env (argumentPath r method i arg.1) method arg.2) →
        record.valueIn stod σ = argumentIn d delivered r method i σ arg := by
  unfold argumentIn
  cases hvalue with
  | payload written =>
    have hcontent : (processSingleArgument r.inspect arg.2).2 ≠ "null".toList := by
      rw [written.1.2]
      decide
    obtain ⟨hname, hfile, hread⟩ := hrow.ofPath rfl written.1.1 hcontent (hcolon _ rfl)
    refine ⟨hname, fun path hpath => .inr ⟨written, ?_⟩, fun σ hσ => ?_⟩
    · exact Option.some.inj (hpath.symm.trans hfile)
    · simp only [if_pos written.1]
      rw [hread, hσ written]
  | future names =>
    have hcontent : (processSingleArgument r.inspect arg.2).2 ≠ "null".toList := by
      rw [names.1.2]
      decide
    have hobject : ¬ ((processSingleArgument r.inspect arg.2).1 = 10 ∧
        (processSingleArgument r.inspect arg.2).2 = "object".toList) := by
      rw [names.1.2]
      exact fun h => absurd h.2 (by decide)
    obtain ⟨hname, hfile, hread⟩ := hrow.ofPath rfl names.1.1 hcontent (hcolon _ rfl)
    refine ⟨hname, fun path hpath => .inl ?_, fun σ _ => ?_⟩
    · obtain rfl := Option.some.inj (hpath.symm.trans hfile)
      exact names
    · simp only [if_neg hobject, if_pos names.1, names.2]
      exact hread σ
  | value noObject noFuture =>
    cases hrow with
    | value given named noFile reads =>
      cases given
      refine ⟨named, fun path hpath => ?_, fun σ _ => ?_⟩
      · rw [noFile] at hpath
        cases hpath
      · simp only [if_neg noObject, if_neg noFuture]
        exact reads σ
    | path q second third given => cases given

theorem mem_processedValues {arguments : Arguments} {values : List ProcessedValue}
    (h : processedValues r method i arguments = .ok values) :
    ∀ value ∈ values, ∃ k, ∃ arg ∈ arguments, processedValue r method k arg = .ok value := by
  induction arguments generalizing i values with
  | nil =>
    cases h
    simp
  | cons arg arguments ih =>
    unfold processedValues at h
    obtain ⟨value, hvalue, h⟩ := except_bind_eq_ok.mp h
    obtain ⟨rest, hrest, h⟩ := except_bind_eq_ok.mp h
    cases h
    refine List.forall_mem_cons.mpr ⟨⟨i, arg, List.mem_cons_self, hvalue⟩, fun v hv => ?_⟩
    obtain ⟨k, a, ha, hk⟩ := ih hrest v hv
    exact ⟨k, a, List.mem_cons_of_mem _ ha, hk⟩

/-- A symbol that stays one is no object that could be written. -/
theorem standsIn {arg : Text × SEXP} {value : ProcessedValue}
    (hvalue : processedValue r method i arg = .ok value)
    (hsymbol : staysSymbol r.inspect arg.2 = false) : StandsIn r method i arg value := by
  apply standsIn_of_processedValue hvalue
  intro hs hobject
  unfold staysSymbol at hsymbol
  rw [hs, hobject] at hsymbol
  revert hsymbol
  decide

/-- And so do the records of all arguments, in order. -/
theorem arguments_delivered {arguments : Arguments} {values : List ProcessedValue}
    {records : List ArgRecord} (hvalues : processedValues r method i arguments = .ok values)
    (hsymbols : ∀ arg ∈ arguments, staysSymbol r.inspect arg.2 = false)
    (hrows : List.Forall₂ (DeliversRow stod delivered)
      (List.zipWith (inputRow r.inspect) arguments values) records)
    (hcolon : ∀ path, .path path ∈ values → ':' ∉ path) :
    records.map ArgRecord.name = arguments.map Prod.fst ∧
      (∀ path ∈ inputFiles records, (∃ arg ∈ arguments, IsFutureOf r arg.2 path) ∨
        path ∈ (payloads r method i arguments).map Prod.fst) ∧
      ∀ σ, (∀ p ∈ payloads r method i arguments, σ p.1 = transported d r.env p.1 method p.2) →
        records.mapM (ArgRecord.valueIn stod σ) =
          argumentsIn d delivered r method i σ arguments := by
  induction arguments generalizing i values records with
  | nil =>
    cases hrows
    exact ⟨rfl, (fun path hpath => by cases hpath), fun _ _ => rfl⟩
  | cons arg arguments ih =>
    unfold processedValues at hvalues
    obtain ⟨value, hvalue, hvalues⟩ := except_bind_eq_ok.mp hvalues
    obtain ⟨rest, hrest, hvalues⟩ := except_bind_eq_ok.mp hvalues
    cases hvalues
    rcases hrows with _ | ⟨hrow, hrows⟩
    rename_i record records
    have hstands := standsIn hvalue (hsymbols arg List.mem_cons_self)
    obtain ⟨hname, hfile, hread⟩ := argument_delivered (d := d) hstands hrow
      fun path hpath => hcolon path (hpath ▸ List.mem_cons_self)
    obtain ⟨hnames, hfiles, hreads⟩ := ih hrest
      (fun a ha => hsymbols a (List.mem_cons_of_mem _ ha)) hrows
      fun path hpath => hcolon path (List.mem_cons_of_mem _ hpath)
    refine ⟨by rw [List.map_cons, List.map_cons, hname, hnames], fun path hpath => ?_,
      fun σ hσ => ?_⟩
    · obtain ⟨w, hw, hwfile⟩ := List.mem_filterMap.mp hpath
      rcases List.mem_cons.mp hw with rfl | hw
      · rcases hfile path hwfile with hfuture | ⟨hwritten, rfl⟩
        · exact .inl ⟨arg, List.mem_cons_self, hfuture⟩
        · exact .inr (List.mem_map_of_mem (written_mem_payloads hwritten))
      · rcases hfiles path (List.mem_filterMap.mpr ⟨w, hw, hwfile⟩) with ⟨a, ha, hfuture⟩ | hmem
        · exact .inl ⟨a, List.mem_cons_of_mem _ ha, hfuture⟩
        · obtain ⟨p, hp, rfl⟩ := List.mem_map.mp hmem
          exact .inr (List.mem_map_of_mem (List.mem_append_right _ hp))
    · rw [List.mapM_cons, hread σ fun hwritten => hσ _ (written_mem_payloads hwritten),
        hreads σ fun p hp => hσ p (List.mem_append_right _ hp)]
      rfl

end

/-- A call of a decorated function, and the line that it becomes. -/
structure Call where
  surroundings : Surroundings
  task : DecoratedTask
  values : List (Text × SEXP)
  session : Session
  line : TaskLine

namespace Call

/-- The arguments under the names of the formals. -/
def arguments (call : Call) : Arguments :=
  match matchArguments call.task.fName call.task.formals call.values with
  | .ok arguments => arguments
  | .error _ => []

def methods (call : Call) : List Text := serMethods call.surroundings.env call.task.serMethod

def argumentMethod (call : Call) : Text := call.methods.headD []

def returnMethod (call : Call) : Text := call.methods[1]?.getD []

/-- The file of the result. -/
def output (call : Call) : Text :=
  returnValueFilename call.surroundings.masterWorkingDir call.returnMethod
    (call.surroundings.uid 0).text

def payloads (call : Call) : List (Text × SEXP) :=
  Submission.payloads call.surroundings call.argumentMethod 1 call.arguments

/-- What the master does in a call: it writes the payloads and submits the task. -/
def events (call : Call) : List Event :=
  call.payloads.map (fun p => .write p.2 p.1 call.argumentMethod) ++ [.submit call.line]

end Call

/-- A call that gives back a future of its own, and that the runtime delivers. No symbol is
among the arguments, and no colon in the paths. -/
structure Call.Proper {ρ : Type} (c : Config ρ) (delivered : SEXP → ArgValue) (call : Call) :
    Prop where
  returned : ∃ future after t path,
    exec (rcompssExecuteDecoratedTask call.surroundings call.task call.values) call.session =
      (.ok (some future), after) ∧
    future.outputfile? = some path ∧
    after.calls.getLast? = some (.processTask t) ∧
    Delivers c.runtime.stod delivered t call.line
  env : call.surroundings.env = c.env
  writes : WritesWith call.surroundings c.packages
  noSymbol : ∀ arg ∈ call.arguments, staysSymbol call.surroundings.inspect arg.2 = false
  accepted : ∀ m ∈ call.methods, lower m ∈ ["cpp".toList, "qs".toList, "rmvl".toList]
  colonFree : ':' ∉ call.surroundings.masterWorkingDir ∧ ∀ arg ∈ call.arguments, ':' ∉ arg.1
  overwrites : ∀ m ∈ call.methods, ∀ path, Overwrites c.packages c.env path m

section
variable {ρ : Type} {c : Config ρ} {delivered : SEXP → ArgValue} {call : Call}

/-- What a proper call submits and how it is delivered. -/
structure Call.Carried (c : Config ρ) (delivered : SEXP → ArgValue) (call : Call) : Prop where
  method : call.returnMethod ∈ call.methods
  argumentMethod : call.argumentMethod ∈ call.methods
  func : call.line.message.func = call.task.fName
  output : call.line.output = call.output
  resultMethod : call.line.method = call.returnMethod
  processed : ∃ processed,
    processedValues call.surroundings call.argumentMethod 1 call.arguments = .ok processed ∧
    List.Forall₂ (DeliversRow c.runtime.stod delivered)
      (List.zipWith (inputRow call.surroundings.inspect) call.arguments processed)
      call.line.layout.records

theorem Call.arguments_eq {arguments : Arguments}
    (h : matchArguments call.task.fName call.task.formals call.values = .ok arguments) :
    call.arguments = arguments := by
  unfold Call.arguments
  rw [h]

theorem takeWhile_returnValueName (m : AcceptedMethod) :
    (buildReturnValueName m.text).takeWhile (· ≠ '-') = m.text := by
  have hdash : ∀ c ∈ m.text, decide (c ≠ '-') = true := by
    intro c hc
    rw [decide_eq_true_eq]
    rintro rfl
    exact m.not_mem (by decide) (by decide) hc
  have hname : buildReturnValueName m.text = m.text ++ '-' :: "RETURN_VALUE".toList := rfl
  rw [hname]
  exact takeWhile_stop hdash (by decide)

theorem Call.Proper.carried (h : call.Proper c delivered) : call.Carried c delivered := by
  obtain ⟨future, after, t, path, hrun, hpath, hlast, hfunc, inputs, result, hrows, hinputs,
    hname, hvalue⟩ := h.returned
  obtain ⟨t', hlast', hsubmitted⟩ := exec_decorated_future hrun
  cases hlast.symm.trans hlast'
  obtain ⟨arguments, _, clean, hmatched, -, -, ht, -⟩ := hsubmitted.executed
  have harguments := Call.arguments_eq hmatched
  obtain ⟨method, processed, hmethod, hprocessed, -, hrows'⟩ :=
    hsubmitted.rows hmatched (harguments ▸ h.noSymbol)
  have hall : inputs ++ [result] = List.zipWith (inputRow call.surroundings.inspect) arguments
      processed ++ [returnRow call.surroundings method] :=
    List.ext_getElem? fun i => (hrows i).symm.trans (hrows' i)
  obtain ⟨rfl, hlastrow⟩ := List.append_inj' hall rfl
  obtain rfl := List.singleton_inj.mp hlastrow
  have hmem : method ∈ call.methods := List.mem_of_getElem? hmethod
  have hreturn : call.returnMethod = method := by
    unfold Call.returnMethod Call.methods
    rw [hmethod, Option.getD_some]
  let m : AcceptedMethod := ⟨method, h.accepted method hmem⟩
  refine ⟨hreturn ▸ hmem, ?_, ?_, ?_, ?_, processed, ?_, ?_⟩
  · cases hmethods : call.methods with
    | nil =>
      rw [hmethods] at hmem
      cases hmem
    | cons first rest =>
      unfold Call.argumentMethod
      rw [hmethods]
      exact List.mem_cons_self
  · rw [hfunc, ht]
    rfl
  · obtain ⟨q, hq⟩ := hvalue _ rfl
    have hcolon : ':' ∉ returnValueFilename call.surroundings.masterWorkingDir method
        (call.surroundings.uid 0).text :=
      fun hc => h.colonFree.1 ((colon_mem_return m _ _).mp hc)
    have hstrip := (stripped_iff _).mpr hcolon q
    unfold LaidOut.output Call.output
    rw [hq, hstrip, hreturn]
  · unfold LaidOut.method
    rw [hname, hreturn]
    exact takeWhile_returnValueName m
  · rw [harguments]
    exact hprocessed
  · rw [harguments]
    exact hinputs

end

end RCompss.System
