import RCompss.Payload.FileNames
import RCompss.Payload.Store
import RCompss.Submission.DecoratedTask

/-! The payload files that a call writes for its arguments. -/
namespace RCompss.Submission
open RCompss.Library RCompss.Payload

abbrev DiskM := Exec Files Failure

/-- `rcompss_serialize`, on the disk. -/
def writePayload (d : Packages) (env : Option Text) (object : SEXP) (path method : Text) :
    DiskM Unit := do
  let files ← get
  let (result, content) := exec (rcompssSerialize d env object path method) (files path)
  set (Function.update files path content)
  match result with
  | .ok _ => return
  | .error e => throw (.raised e.what)

/-- The loop of `rcompss_execute_task` over its arguments, with the files it writes. -/
def processedValueOn (d : Packages) (r : Surroundings) (method : Text) (i : ℕ)
    (arg : Text × SEXP) : DiskM ProcessedValue := do
  let (type, contentType) := processSingleArgument r.inspect arg.2
  if type = 10 ∧ contentType = "object".toList then
    if isSymbol arg.2 then
      return .value arg.2
    let path := buildArgumentFilename r.masterWorkingDir method arg.1 i (r.uid i).text
    writePayload d r.env arg.2 path method
    return .path path
  else if type = 10 ∧ contentType = "future_object".toList then
    return .path (← r.outputfile arg.2)
  else
    return .value arg.2

def processedValuesOn (d : Packages) (r : Surroundings) (method : Text) (i : ℕ) :
    Arguments → DiskM (List ProcessedValue)
  | [] => return []
  | arg :: arguments => do
      let value ← processedValueOn d r method i arg
      let values ← processedValuesOn d r method (i + 1) arguments
      return value :: values

/-- An argument that is written to a file of its own. -/
def IsWritten (inspect : Inspect) (x : SEXP) : Prop :=
  ((processSingleArgument inspect x).1 = 10 ∧
      (processSingleArgument inspect x).2 = "object".toList) ∧ isSymbol x = false

instance (inspect : Inspect) (x : SEXP) : Decidable (IsWritten inspect x) :=
  inferInstanceAs (Decidable (_ ∧ _))

/-- The file of the `i`-th argument. -/
def argumentPath (r : Surroundings) (method : Text) (i : ℕ) (name : Text) : Text :=
  buildArgumentFilename r.masterWorkingDir method name i (r.uid i).text

/-- The files written for the arguments from the `i`-th on, and the objects in them. -/
def payloads (r : Surroundings) (method : Text) (i : ℕ) : Arguments → List (Text × SEXP)
  | [] => []
  | arg :: arguments =>
      (if IsWritten r.inspect arg.2 then [(argumentPath r method i arg.1, arg.2)] else []) ++
        payloads r method (i + 1) arguments

/-- An argument that is a future, and the file in it. -/
def IsFutureOf (r : Surroundings) (x : SEXP) (path : Text) : Prop :=
  ((processSingleArgument r.inspect x).1 = 10 ∧
      (processSingleArgument r.inspect x).2 = "future_object".toList) ∧
    r.outputfile x = .ok path

/-- What stands for an argument that is no symbol. -/
inductive StandsIn (r : Surroundings) (method : Text) (i : ℕ) (arg : Text × SEXP) :
    ProcessedValue → Prop
  | payload (written : IsWritten r.inspect arg.2) :
      StandsIn r method i arg (.path (argumentPath r method i arg.1))
  | future {path : Text} (names : IsFutureOf r arg.2 path) : StandsIn r method i arg (.path path)
  | value (noObject : ¬ ((processSingleArgument r.inspect arg.2).1 = 10 ∧
        (processSingleArgument r.inspect arg.2).2 = "object".toList))
      (noFuture : ¬ ((processSingleArgument r.inspect arg.2).1 = 10 ∧
        (processSingleArgument r.inspect arg.2).2 = "future_object".toList)) :
      StandsIn r method i arg (.value arg.2)

/-- The surroundings know which objects the packages can write. -/
def WritesWith (r : Surroundings) (d : Packages) : Prop :=
  ∀ object path method old, r.serialize object path method = .ok () ↔
    ∃ content, exec (rcompssSerialize d r.env object path method) old = (.ok (), content)

/-- Objects written one after the other. -/
def writeAll (d : Packages) (env : Option Text) (method : Text) (files : Files)
    (ps : List (Text × SEXP)) : Files :=
  ps.foldl (fun files p => Function.update files p.1
    (exec (rcompssSerialize d env p.2 p.1 method) (files p.1)).2) files

section
variable {d : Packages} {r : Surroundings} {method : Text} {i : ℕ} {files files' : Files}

theorem exec_writePayload_eq_ok {env : Option Text} {object : SEXP} {path : Text} :
    exec (writePayload d env object path method) files = (.ok (), files') ↔
      ∃ content, exec (rcompssSerialize d env object path method) (files path) =
          (.ok (), content) ∧ files' = Function.update files path content := by
  unfold writePayload
  rw [exec_bind, exec_get]
  simp only
  rcases exec (rcompssSerialize d env object path method) (files path) with ⟨e | ⟨⟩, content⟩
  · constructor
    · intro h
      cases h
    · rintro ⟨_, h, -⟩
      cases h
  · constructor
    · intro h
      cases h
      exact ⟨content, rfl, rfl⟩
    · rintro ⟨_, h, rfl⟩
      cases h
      rfl

/-- What becomes of an argument, and what is written for it. -/
theorem exec_processedValueOn (hr : WritesWith r d) {arg : Text × SEXP} {value : ProcessedValue}
    (h : exec (processedValueOn d r method i arg) files = (.ok value, files')) :
    processedValue r method i arg = .ok value ∧
      files' = writeAll d r.env method files (if IsWritten r.inspect arg.2 then
        [(argumentPath r method i arg.1, arg.2)] else []) := by
  unfold processedValueOn at h
  unfold processedValue
  rcases hprocess : processSingleArgument r.inspect arg.2 with ⟨type, contentType⟩
  have hwritten : IsWritten r.inspect arg.2 ↔
      (type = 10 ∧ contentType = "object".toList) ∧ isSymbol arg.2 = false := by
    unfold IsWritten
    rw [hprocess]
  rw [hprocess] at h
  simp only at h ⊢
  by_cases hobject : type = 10 ∧ contentType = "object".toList
  · rw [if_pos hobject] at h ⊢
    cases hsymbol : isSymbol arg.2 with
    | true =>
      have hnot : ¬ IsWritten r.inspect arg.2 := by simp [hwritten, hsymbol]
      rw [hsymbol, if_pos rfl] at h
      cases h
      rw [if_neg hnot]
      exact ⟨rfl, rfl⟩
    | false =>
      simp only [hsymbol, Bool.false_eq_true, if_false] at h ⊢
      rw [exec_bind_eq_ok] at h
      obtain ⟨_, written, hwrite, h⟩ := h
      cases h
      obtain ⟨content, hrun, rfl⟩ := exec_writePayload_eq_ok.mp hwrite
      have hserialize := (hr arg.2 (argumentPath r method i arg.1) method _).mpr ⟨content, hrun⟩
      unfold argumentPath at hserialize
      rw [hserialize, if_pos (hwritten.mpr ⟨hobject, hsymbol⟩)]
      refine ⟨rfl, ?_⟩
      unfold writeAll argumentPath
      simp only [List.foldl_cons, List.foldl_nil, hrun]
  · rw [if_neg hobject] at h ⊢
    rw [if_neg fun hw => hobject (hwritten.mp hw).1]
    by_cases hfuture : type = 10 ∧ contentType = "future_object".toList
    · rw [if_pos hfuture] at h ⊢
      obtain ⟨path, t, hpath, h⟩ := exec_bind_eq_ok.mp h
      cases h
      rw [exec_lift] at hpath
      cases hout : r.outputfile arg.2 with
      | error e =>
        rw [hout] at hpath
        cases hpath
      | ok p =>
        rw [hout] at hpath
        cases hpath
        exact ⟨rfl, rfl⟩
    · rw [if_neg hfuture] at h ⊢
      cases h
      exact ⟨rfl, rfl⟩

/-- The loop over the disk is the loop over the values, and writes the payloads in order. -/
theorem exec_processedValuesOn (hr : WritesWith r d) {arguments : Arguments}
    {values : List ProcessedValue}
    (h : exec (processedValuesOn d r method i arguments) files = (.ok values, files')) :
    processedValues r method i arguments = .ok values ∧
      files' = writeAll d r.env method files (payloads r method i arguments) := by
  induction arguments generalizing i files values with
  | nil =>
    cases h
    exact ⟨rfl, rfl⟩
  | cons arg arguments ih =>
    unfold processedValuesOn at h
    obtain ⟨value, first, hvalue, h⟩ := exec_bind_eq_ok.mp h
    obtain ⟨rest, last, hrest, h⟩ := exec_bind_eq_ok.mp h
    cases h
    obtain ⟨hprocessed, hfirst⟩ := exec_processedValueOn hr hvalue
    obtain ⟨hprocesseds, hlast⟩ := ih hrest
    constructor
    · unfold processedValues
      rw [hprocessed]
      simp only [Bind.bind, Except.bind, hprocesseds]
      rfl
    · rw [hlast, hfirst, payloads]
      unfold writeAll
      rw [List.foldl_append]

/-- A name that ends in a UID. -/
def EndsIn (uid : UID) (path : Text) : Prop := ∃ front, path = front ++ uid.text

theorem EndsIn.unique {uid uid' : UID} {path : Text} (h : EndsIn uid path)
    (h' : EndsIn uid' path) : uid = uid' := by
  obtain ⟨front, rfl⟩ := h
  obtain ⟨front', hsame⟩ := h'
  obtain ⟨-, huid⟩ := List.append_inj' hsame (uid.length_text.trans uid'.length_text.symm)
  exact UID.text_injective huid

theorem buildArgumentFilename_fields (dir method name : Text) (i : ℕ) (uid : UID) :
    buildArgumentFilename dir method name i uid.text = directory dir ++
      (if method = [] then "cpp".toList else method) ++ "-".toList ++
        (name ++ argumentSuffix i uid) := by
  unfold buildArgumentFilename argumentSuffix
  simp only [List.append_assoc]

theorem argumentPath_endsIn (r : Surroundings) (method : Text) (i : ℕ) (name : Text) :
    EndsIn (r.uid i) (argumentPath r method i name) := by
  unfold argumentPath buildArgumentFilename
  exact ⟨_, rfl⟩

theorem returnValueFilename_endsIn (dir method : Text) (uid : UID) :
    EndsIn uid (returnValueFilename dir method uid.text) := ⟨_, rfl⟩

/-- The place of an argument can be told from the name of its file. -/
theorem argumentPath_index {r : Surroundings} {method : Text} {i j : ℕ} {name name' : Text}
    (h : argumentPath r method i name = argumentPath r method j name') : i = j := by
  unfold argumentPath at h
  rw [buildArgumentFilename_fields, buildArgumentFilename_fields] at h
  exact (argument_fields_inj (List.append_cancel_left h)).2.1

/-- In front of the UID the name of an argument's file ends as no return value's does. -/
theorem argumentPath_ne_return (r : Surroundings) (method : Text) (i : ℕ) (name dir' method' : Text)
    (uid : UID) : argumentPath r method i name ≠ returnValueFilename dir' method' uid.text := by
  intro h
  have hreturn : returnValueFilename dir' method' uid.text =
      (directory dir' ++ method' ++ "-ReturnValu".toList) ++ "e_".toList ++ uid.text := by
    unfold returnValueFilename
    simp
  unfold argumentPath at h
  rw [buildArgumentFilename_fields, append_argumentSuffix, hreturn] at h
  simp only [← List.append_assoc] at h
  obtain ⟨hfront, -⟩ := List.append_inj' h ((r.uid i).length_text.trans uid.length_text.symm)
  obtain ⟨-, hletter⟩ := List.append_inj' hfront rfl
  revert hletter
  decide

/-- A payload is that of an argument in its place. -/
theorem mem_payloads {arguments : Arguments} {p : Text × SEXP}
    (h : p ∈ payloads r method i arguments) : ∃ k arg, arguments[k]? = some arg ∧
      IsWritten r.inspect arg.2 ∧ p = (argumentPath r method (i + k) arg.1, arg.2) := by
  induction arguments generalizing i with
  | nil => cases h
  | cons arg arguments ih =>
    rcases List.mem_append.mp h with h | h
    · split at h
      next hw => exact ⟨0, arg, rfl, hw, List.mem_singleton.mp h⟩
      next => cases h
    · obtain ⟨k, arg', hk, hw, rfl⟩ := ih h
      refine ⟨k + 1, arg', hk, hw, ?_⟩
      rw [show i + 1 + k = i + (k + 1) by omega]

theorem standsIn_of_processedValue {arg : Text × SEXP} {value : ProcessedValue}
    (h : processedValue r method i arg = .ok value)
    (hsymbol : isSymbol arg.2 = true → ¬ (processSingleArgument r.inspect arg.2).2 =
      "object".toList) : StandsIn r method i arg value := by
  unfold processedValue at h
  by_cases hobject : (processSingleArgument r.inspect arg.2).1 = 10 ∧
      (processSingleArgument r.inspect arg.2).2 = "object".toList
  · have hplain : isSymbol arg.2 = false := by
      by_contra hs
      exact hsymbol (by simpa using hs) hobject.2
    simp only [if_pos hobject, hplain, Bool.false_eq_true, if_false] at h
    obtain ⟨_, -, h⟩ := except_bind_eq_ok.mp h
    cases h
    exact .payload ⟨hobject, hplain⟩
  · simp only [if_neg hobject] at h
    by_cases hfuture : (processSingleArgument r.inspect arg.2).1 = 10 ∧
        (processSingleArgument r.inspect arg.2).2 = "future_object".toList
    · simp only [if_pos hfuture] at h
      obtain ⟨path, hpath, h⟩ := except_bind_eq_ok.mp h
      cases h
      exact .future ⟨hfuture, hpath⟩
    · simp only [if_neg hfuture] at h
      cases h
      exact .value hobject hfuture

/-- When all arguments are processed, all payloads have been written. -/
theorem payloads_written {arguments : Arguments} {values : List ProcessedValue}
    (h : processedValues r method i arguments = .ok values) :
    ∀ p ∈ payloads r method i arguments, r.serialize p.2 p.1 method = .ok () := by
  induction arguments generalizing i values with
  | nil =>
    intro p hp
    cases hp
  | cons arg arguments ih =>
    unfold processedValues at h
    obtain ⟨value, hvalue, h⟩ := except_bind_eq_ok.mp h
    obtain ⟨rest, hrest, -⟩ := except_bind_eq_ok.mp h
    intro p hp
    rcases List.mem_append.mp hp with hp | hp
    · split at hp
      next hwritten =>
        obtain rfl := List.mem_singleton.mp hp
        unfold processedValue at hvalue
        simp only [if_pos hwritten.1, hwritten.2, Bool.false_eq_true, if_false] at hvalue
        obtain ⟨_, hserialize, -⟩ := except_bind_eq_ok.mp hvalue
        exact hserialize
      next => cases hp
    · exact ih hrest p hp

theorem written_mem_payloads {arg : Text × SEXP} {arguments : Arguments}
    (h : IsWritten r.inspect arg.2) :
    (argumentPath r method i arg.1, arg.2) ∈ payloads r method i (arg :: arguments) := by
  refine List.mem_append_left _ ?_
  rw [if_pos h]
  exact List.mem_singleton_self _

/-- Whatever UIDs are drawn, a call writes no file twice, and none of them is that of its
return value. -/
theorem payload_paths_distinct (r : Surroundings) (method returnMethod : Text)
    (arguments : Arguments) :
    (returnValueFilename r.masterWorkingDir returnMethod (r.uid 0).text ::
      (payloads r method 1 arguments).map Prod.fst).Nodup := by
  have hnodup : ∀ i, ((payloads r method i arguments).map Prod.fst).Nodup := by
    induction arguments with
    | nil => exact fun _ => List.nodup_nil
    | cons arg arguments ih =>
      intro i
      rw [payloads, List.map_append]
      split
      · refine List.nodup_cons.mpr ⟨fun hmem => ?_, ih (i + 1)⟩
        obtain ⟨p, hp, hpath⟩ := List.mem_map.mp hmem
        obtain ⟨k, arg', -, -, rfl⟩ := mem_payloads hp
        have hindex := argumentPath_index hpath
        omega
      · exact ih (i + 1)
  refine List.nodup_cons.mpr ⟨fun hmem => ?_, hnodup 1⟩
  obtain ⟨p, hp, hpath⟩ := List.mem_map.mp hmem
  obtain ⟨k, arg, -, -, rfl⟩ := mem_payloads hp
  exact argumentPath_ne_return r method _ _ _ _ _ hpath

end

end RCompss.Submission
