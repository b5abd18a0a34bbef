import RCompss.Library.Reduction
import RCompss.Payload.Relay
import RCompss.System.Completion

/-! The loop with which the applications reduce partial results: while there are too many futures,
a task merges the first of them, and its own future goes to the end. -/
namespace RCompss.System
open RCompss.Library RCompss.Payload RCompss.Executor RCompss.Submission

/-- The arguments of a function of `...` on an executor. -/
def variadicArguments (fName : Text) (vs : List SEXP) : List (Text × ArgValue) :=
  (buildVariableArgumentNames fName vs.length).zip (vs.map .object)

/-- `do.call(task, partials)`, of futures of these files. -/
structure MergesFutures (task : DecoratedTask) (moduleFile : Text) (paths : List Text)
    (call : Call) : Prop where
  task : call.task = task
  moduleFile : call.line.message.moduleFile = moduleFile
  futures : List.Forall₂ (fun value path => IsFutureOf call.surroundings value.2 path)
    call.values paths

/-- `while (length(partials) > arity)`: the calls it makes, and the futures it leaves, each by the
file it names. For an arity of zero `1:arity` would not be empty. -/
inductive ReductionLoop (task : DecoratedTask) (moduleFile : Text) (arity : ℕ) :
    List Text → List Call → List Text → Prop
  | done {partials : List Text} (short : partials.length ≤ arity) :
      ReductionLoop task moduleFile arity partials [] partials
  | turn {partials : List Text} {call : Call} {calls : List Call} {left : List Text}
      (long : arity < partials.length) (positive : 0 < arity)
      (merged : MergesFutures task moduleFile (partials.take arity) call)
      (rest : ReductionLoop task moduleFile arity (partials.drop arity ++ [call.output])
        calls left) : ReductionLoop task moduleFile arity partials (call :: calls) left

section
variable {ρ : Type} {c : Config ρ} {delivered : SEXP → ArgValue} {call : Call}
  {task : DecoratedTask} {moduleFile : Text} {paths left : List Text} {calls : List Call}
  {arity : ℕ} {σ : Text → Option SEXP}

theorem argumentsIn_futures {d : Packages} {r : Surroundings} {method : Text} {i : ℕ}
    {names : List Text} {values : List (Text × SEXP)} (hnames : names.length = values.length)
    (h : List.Forall₂ (fun value path => IsFutureOf r value.2 path) values paths) :
    argumentsIn d delivered r method i σ (names.zip (values.map Prod.snd)) =
      (paths.mapM σ).map (List.map ArgValue.object) := by
  induction h generalizing i names with
  | nil => simp [argumentsIn]
  | @cons value path values paths hvalue _ ih =>
    obtain ⟨name, names, rfl⟩ := List.exists_cons_of_length_eq_add_one hnames
    have hfirst : argumentIn d delivered r method i σ (name, value.2) =
        (σ path).map ArgValue.object := by
      obtain ⟨hfuture, hpath⟩ := hvalue
      have hobject : ¬ ((processSingleArgument r.inspect value.2).1 = 10 ∧
          (processSingleArgument r.inspect value.2).2 = "object".toList) := by
        rw [hfuture.2]
        exact fun h => absurd h.2 (by decide)
      unfold argumentIn
      simp only [if_neg hobject, if_pos hfuture, hpath]
    simp only [List.map_cons, List.zip_cons_cons, argumentsIn, hfirst, List.mapM_cons]
    rw [ih (by simpa using hnames)]
    cases σ path with
    | none => rfl
    | some v => cases paths.mapM σ <;> rfl

theorem length_variableArgumentNames (fName : Text) (n : ℕ) :
    (buildVariableArgumentNames fName n).length = n := by
  simp [buildVariableArgumentNames]

/-- The names given to the arguments of a function of `...` are none of a placeholder: they end
in a digit. -/
theorem not_placeholder_variableArgumentName {fName name : Text} {n : ℕ}
    (h : name ∈ buildVariableArgumentNames fName n) :
    rcompssIsReturnValuePlaceholderArgName name = false := by
  unfold buildVariableArgumentNames at h
  obtain ⟨i, -, rfl⟩ := List.mem_map.mp h
  unfold rcompssIsReturnValuePlaceholderArgName
  rw [Bool.eq_false_iff]
  intro hsuffix
  obtain ⟨front, hfront⟩ := List.isSuffixOf_iff_suffix.mp hsuffix
  have hdigit := congrArg List.getLast? hfront
  rw [List.getLast?_append_of_ne_nil _ (by decide),
    List.getLast?_append_of_ne_nil _ (decimal_ne_nil (i + 1))] at hdigit
  have hlast : 'E' ∈ decimal (i + 1) := List.mem_of_getLast? hdigit.symm
  exact absurd (isDigit_decimal hlast) (by decide)

theorem MergesFutures.value_eq (h : MergesFutures task moduleFile paths call)
    (hvariadic : task.formals.map Prod.fst = ["...".toList]) :
    call.value c delivered σ = onValues (fun vs => c.functions moduleFile task.fName
      (variadicArguments task.fName vs)) (paths.map σ) := by
  have hnames := length_variableArgumentNames task.fName call.values.length
  have harguments : call.arguments =
      (buildVariableArgumentNames task.fName call.values.length).zip
        (call.values.map Prod.snd) := by
    apply Call.arguments_eq
    rw [h.task, matchArguments]
    simp only [hvariadic, if_true]
  have hplain : ∀ vs : List ArgValue, vs.length = call.values.length →
      ((((buildVariableArgumentNames task.fName call.values.length).zip
        (call.values.map Prod.snd)).map Prod.fst).zip vs).filter
          (fun arg => !rcompssIsReturnValuePlaceholderArgName arg.1) =
        (buildVariableArgumentNames task.fName call.values.length).zip vs := by
    intro vs hlength
    rw [List.map_fst_zip (by simp [hnames]), List.filter_eq_self]
    intro arg harg
    rw [not_placeholder_variableArgumentName (List.of_mem_zip harg).1]
    rfl
  unfold Call.value onValues
  rw [harguments, argumentsIn_futures hnames h.futures, h.moduleFile, h.task, List.mapM_map]
  cases hvs : paths.mapM σ with
  | none =>
    rw [show paths.mapM (id ∘ σ) = none from hvs]
    rfl
  | some vs =>
    have hvalues : (paths.map σ).mapM id = some vs := by
      rw [List.mapM_map]
      exact hvs
    have hlength : vs.length = call.values.length := by
      rw [h.futures.length_eq, ← List.length_map σ, mapM_id_eq_some.mp hvalues, List.length_map]
    rw [show paths.mapM (id ∘ σ) = some vs from hvs]
    simp only [Option.map_some, Option.bind_eq_bind, Option.bind_some]
    rw [hplain _ (by simpa using hlength), ← hlength]
    rfl

/-- What a task makes of values that it gets by futures, and its file gives back. -/
def mergedValue (c : Config ρ) (task : DecoratedTask) (moduleFile : Text) (vs : List SEXP) :
    Option SEXP :=
  (c.functions moduleFile task.fName (variadicArguments task.fName vs)).bind (carried c.packages)

theorem MergesFutures.result_eq (h : MergesFutures task moduleFile paths call)
    (hvariadic : task.formals.map Prod.fst = ["...".toList])
    (hown : Hop.OwnFormat c.packages c.env ⟨call.output, call.returnMethod⟩) :
    call.result c delivered σ = onValues (mergedValue c task moduleFile) (paths.map σ) := by
  have hcarried : transported c.packages c.env call.output call.returnMethod =
      carried c.packages := funext fun v => hown.transported_eq v
  unfold Call.result
  rw [h.value_eq hvariadic, hcarried, onValues, Option.bind_assoc]
  rfl

/-- The files of the futures that the loop leaves hold what the loop leaves of the values. -/
theorem ReductionLoop.results_left {all : List Call} (hmade : MadeInTurn c delivered all)
    (h : ReductionLoop task moduleFile arity paths calls left)
    (hvariadic : task.formals.map Prod.fst = ["...".toList])
    (hcalls : ∀ call ∈ calls, call ∈ all ∧
      Hop.OwnFormat c.packages c.env ⟨call.output, call.returnMethod⟩) :
    left.map (results c delivered all) =
      reduceWithin (onValues (mergedValue c task moduleFile)) arity calls.length
        (paths.map (results c delivered all)) := by
  induction h with
  | done short => rfl
  | @turn partials call calls left long positive merged rest ih =>
    obtain ⟨⟨hcall, hown⟩, hcalls⟩ := List.forall_mem_cons.mp hcalls
    have hmerged : results c delivered all call.output =
        onValues (mergedValue c task moduleFile)
          ((partials.take arity).map (results c delivered all)) := by
      rw [hmade.results_output call hcall, merged.result_eq hvariadic hown]
    have hlong : arity < (partials.map (results c delivered all)).length := by simpa using long
    rw [ih hcalls, List.length_cons, reduceWithin, if_pos hlong, mergeFront, List.map_append,
      List.map_drop, List.map_singleton, hmerged, List.map_take]

theorem ReductionLoop.short (h : ReductionLoop task moduleFile arity paths calls left) :
    left.length ≤ arity := by
  induction h with
  | done short => exact short
  | turn _ _ _ _ ih => exact ih

end

/-- Partial results that calls of a program reduce: the loop with its merges, and the task that is
given what is left. -/
structure Reduction (arity : ℕ) (partials : List Text) where
  merge : DecoratedTask
  mergeFile : Text
  finish : DecoratedTask
  finishFile : Text
  calls : List Call
  left : List Text
  last : Call
  loop : ReductionLoop merge mergeFile arity partials calls left
  finishes : MergesFutures finish finishFile left last
  variadic : merge.formals.map Prod.fst = ["...".toList] ∧
    finish.formals.map Prod.fst = ["...".toList]

/-- The executors find these functions of R under the names, and their results pass through a file
of the binding's own format as they are. -/
structure Reduction.Computes {ρ : Type} {arity : ℕ} {partials : List Text}
    (r : Reduction arity partials) (c : Config ρ) (merge finish : List SEXP → Option SEXP)
    (K : SEXP → Prop) : Prop where
  merge_eq : ∀ vs, c.functions r.mergeFile r.merge.fName (variadicArguments r.merge.fName vs) =
    merge vs
  finish_eq : ∀ vs, c.functions r.finishFile r.finish.fName
    (variadicArguments r.finish.fName vs) = finish vs
  merge_kept : KeptBy merge K
  finish_kept : KeptBy finish K
  carried : ∀ v, K v → Payload.carried c.packages v = some v

section
variable {ρ : Type} {c : Config ρ} {delivered : SEXP → ArgValue} {arity : ℕ}
  {partials : List Text} {r : Reduction arity partials} {K : SEXP → Prop}
  {merge finish : List SEXP → Option SEXP}

/-- What a file gives back of a value that it carries whole. -/
theorem bind_carried {d : Packages} {f : List SEXP → Option SEXP} (hkept : KeptBy f K)
    (hcarried : ∀ v, K v → carried d v = some v) (vs : List SEXP) (hvs : ∀ v ∈ vs, K v) :
    (f vs).bind (carried d) = f vs := by
  cases hv : f vs with
  | none => rfl
  | some v => exact hcarried v (hkept vs hvs v hv)

/-- The future of the last task holds what R computes in one place. -/
theorem Reduction.Computes.results_last {all : List Call} (h : r.Computes c merge finish K)
    (hmade : MadeInTurn c delivered all) (harity : 2 ≤ arity)
    (hcalls : ∀ call ∈ r.last :: r.calls, call ∈ all ∧
      Hop.OwnFormat c.packages c.env ⟨call.output, call.returnMethod⟩)
    (hpartials : AllIn K (partials.map (results c delivered all))) :
    results c delivered all r.last.output =
      onValues finish (reduceQueue (onValues merge) arity
        (partials.map (results c delivered all))) := by
  obtain ⟨⟨hlast, hown⟩, hcalls⟩ := List.forall_mem_cons.mp hcalls
  have hmerged : ∀ vs, (∀ v ∈ vs, K v) → merge vs = mergedValue c r.merge r.mergeFile vs := by
    intro vs hvs
    unfold mergedValue
    rw [h.merge_eq, bind_carried h.merge_kept h.carried vs hvs]
  have hfinished : ∀ vs, (∀ v ∈ vs, K v) → finish vs = mergedValue c r.finish r.finishFile vs := by
    intro vs hvs
    unfold mergedValue
    rw [h.finish_eq, bind_carried h.finish_kept h.carried vs hvs]
  obtain ⟨hsame, hkept⟩ := hpartials.reduceWithin_eq h.merge_kept hmerged arity r.calls.length
  have hleft := r.loop.results_left hmade r.variadic.1 hcalls
  rw [← hsame] at hleft
  have hshort : (reduceWithin (onValues merge) arity r.calls.length
      (partials.map (results c delivered all))).length ≤ arity := by
    rw [← hleft, List.length_map]
    exact r.loop.short
  rw [hmade.results_output r.last hlast, r.finishes.result_eq r.variadic.2 hown, hleft,
    ← hkept.onValues_eq hfinished, reduceWithin_eq_reduceQueue harity hshort]

/-- Its file reads so when it is done, if the partial results are these values. -/
theorem Reduction.Computes.last_read {files : Files} {executors : ℕ → Process (Node ρ)}
    {p : Program ρ} {vs : List SEXP}
    (hr : r.Computes c merge finish K)
    (h : Reached (Program.step c) (Program.Allowed c delivered) (.start files executors) p)
    (harity : 2 ≤ arity)
    (hcalls : ∀ call ∈ r.last :: r.calls, call ∈ p.calls ∧
      Hop.OwnFormat c.packages c.env ⟨call.output, call.returnMethod⟩)
    (hvs : List.Forall₂ (fun path v => results c delivered p.calls path = some v ∧ K v)
      partials vs)
    (hdone : r.last.output ∈ p.system.done) :
    readable c.packages p.system.files r.last.output =
      onValues finish (reduceQueue (onValues merge) arity (vs.map some)) := by
  obtain ⟨hpartials, hK⟩ := map_eq_of_forall₂ hvs
  have hkept : AllIn K (partials.map (results c delivered p.calls)) := by
    rw [hpartials]
    exact .of_values hK
  have hlast := hr.results_last (madeInTurn h) harity hcalls hkept
  rw [hpartials] at hlast
  exact (futures_hold_results c delivered files executors p h r.last
    (hcalls r.last List.mem_cons_self).1 hdone).trans hlast

/-- Waiting on one future gives what its file reads as. -/
theorem waitOn_future {a : Awaiting} {s : State ρ} (ha : Awaits a c s) {x v : SEXP} {path : Text}
    (hx : IsFutureObject x) (hself : a.evaluated x = .ok x) (hnames : a.outputfile x = .ok path)
    (hdone : path ∈ s.done) (hread : readable c.packages s.files path = some v)
    (warnings : List Text) : (exec (rcompssWaitOn a x) warnings).1 = .ok v := by
  have htold : rcompssIsFutureObject ⟨rClass x, typeName x, x.length⟩ = true :=
    rcompssIsFutureObject_iff.mpr hx
  have hfetched : a.fetched x = .ok v := by
    unfold Awaiting.fetched Awaiting.fetchFile
    rw [hnames]
    simp only [Bind.bind, Except.bind, ha.getFile _ hdone]
    exact ha.unserialize _ _ hread
  unfold rcompssWaitOn
  rw [exec_tryCatch, exec_bind, exec_lift, Awaiting.inspected_eq hself]
  simp only [if_pos htold, exec_lift, hfetched]

end

/-- However the runtime schedules the merges, waiting on the future of a reduction gives what the
loop computes in R itself, when the functions are called on the values one after the other. -/
theorem reduction_gives_R_result {ρ : Type} (c : Config ρ) (delivered : SEXP → ArgValue)
    (files : Files) (executors : ℕ → Process (Node ρ)) (p : Program ρ)
    (h : Reached (Program.step c) (Program.Allowed c delivered) (.start files executors) p)
    (arity : ℕ) (harity : 2 ≤ arity) (partials : List Text) (r : Reduction arity partials)
    (merge finish : List SEXP → Option SEXP) (K : SEXP → Prop)
    (hr : r.Computes c merge finish K)
    (hcalls : ∀ call ∈ r.last :: r.calls, call ∈ p.calls ∧
      Hop.OwnFormat c.packages c.env ⟨call.output, call.returnMethod⟩)
    (vs : List SEXP)
    (hvs : List.Forall₂ (fun path v => results c delivered p.calls path = some v ∧ K v)
      partials vs)
    (hdone : r.last.output ∈ p.system.done) (a : Awaiting) (ha : Awaits a c p.system) (x : SEXP)
    (hx : IsFutureObject x) (hself : a.evaluated x = .ok x)
    (hnames : a.outputfile x = .ok r.last.output) (warnings : List Text) (w : SEXP)
    (hw : onValues finish (reduceQueue (onValues merge) arity (vs.map some)) = some w) :
    (exec (rcompssWaitOn a x) warnings).1 = .ok w := by
  have hread := hr.last_read h harity hcalls hvs hdone
  exact waitOn_future ha hx hself hnames hdone (hread.trans hw) warnings

/-- `first <- function(...) ..1`, next to `pair`. -/
def pairAndFirst : Functions := fun moduleFile fName args =>
  if fName = "first".toList then
    match args with
    | (_, .object v) :: _ => some v
    | _ => none
  else pair moduleFile fName args

def firstConfig : Config Text := .ofFunctions plainPackages none pairAndFirst fun _ => none

/-- The names that its arguments get. -/
def firstName (i : ℕ) : Text := "first".toList ++ "___".toList ++ decimal (i + 1)

/-- The tokens of `first` on two files, with a third for its result. -/
def firstRecords (a b : Text) : List ArgRecord :=
  [.scalar "10".toList "3".toList "null".toList (firstName 0) "future_object".toList
    ("node".toList ++ ':' :: a) ten_ne_eight,
   .scalar "10".toList "3".toList "null".toList (firstName 1) "future_object".toList
    ("node".toList ++ ':' :: b) ten_ne_eight]

def firstResult (result : Text) : ArgRecord :=
  .scalar "10".toList "3".toList "null".toList "cpp-RETURN_VALUE".toList "object".toList
    ("node".toList ++ ':' :: result) ten_ne_eight

theorem three_countable : 2 + 1 < 2 ^ 31 := by decide

def firstLayout (a b result : Text) : Layout where
  hosts := ["localhost".toList]
  afterHosts := ("-".toList, "-".toList)
  target := "F".toList
  afterTarget := "-".toList
  records := firstRecords a b
  returned := some (firstResult result)
  hosts_countable := one_countable
  no_target := parseBool_F
  records_countable := three_countable

def firstWords (a b result : Text) : List Text :=
  (["EXECUTE_TASK", "1", "sandbox", "job.out", "job.err", "false", "-", "false", "-", "-",
    "first.R", "first", "-"].map String.toList) ++ (firstLayout a b result).params ++
      ["-".toList, "-".toList, "-".toList]

def firstLine (a b result : Text) (h : ∀ w ∈ firstWords a b result, IsWord isSpace w) :
    TaskLine where
  message := { boundTask with
    moduleFile := "first.R".toList
    func := "first".toList
    params := (firstLayout a b result).params
    cpus := "-".toList
    gpus := "-".toList }
  layout := firstLayout a b result
  result := firstResult result
  params := rfl
  returned := rfl
  line := List.intercalate [' '] (firstWords a b result)
  parses := by
    unfold parseTaskMessage
    rw [splitWhitespace_join h]
    rfl

/-- A path of ASCII characters as R holds it. -/
def asciiBytes (path : Text) : Bytes := path.map fun c => UInt8.ofNat c.toNat

/-- `structure(list(outputfile = path), class = "future_object")`. -/
def futureOf (path : RString) : SEXP :=
  .vec [.atom (.str [some path]) []]
    [(R_NamesSymbol, .atom (.str [some ⟨asciiBytes "outputfile".toList, by decide, by decide⟩]) []),
     (R_ClassSymbol, .atom (.str [some ⟨asciiBytes "future_object".toList, by decide, by decide⟩])
       [])]

def futureFile : SEXP → Except Failure Text
  | .vec [.atom (.str [some path]) _] _ => .ok path.text
  | _ => .error (.raised "not a future".toList)

def firstTask : DecoratedTask :=
  { addTask with
    fName := "first".toList
    formals := [("...".toList, missingArg)]
    filename := "first.R".toList }

def firstCall (uid : UID) (a b : RString) (h : ∀ w ∈ firstWords a.text b.text
    (returnValueFilename "/tmp".toList "cpp".toList uid.text), IsWord isSpace w) : Call where
  surroundings := { plainR with
    outputfile := futureFile
    uid := fun _ => uid }
  task := firstTask
  values := [([], futureOf a), ([], futureOf b)]
  session := ⟨[], []⟩
  line := firstLine _ _ _ h

section
variable {uid : UID} {a b : RString} {h : ∀ w ∈ firstWords a.text b.text
    (returnValueFilename "/tmp".toList "cpp".toList uid.text), IsWord isSpace w}

theorem firstTask_methods : (∀ m ∈ serMethods none firstTask.serMethod,
    lower m ∈ ["cpp".toList, "qs".toList, "rmvl".toList]) ∧
      ∀ m ∈ serMethods none firstTask.serMethod, m = "cpp".toList := by
  decide

/-- The row of an argument that is a future, and how it gets to the executor. -/
def futureRow (i : ℕ) (path : RString) : ParameterRow where
  value := .path path.text
  name := firstName i
  compssType := 10
  compssDirection := 0
  compssStream := 3
  compssPrefix := "null".toList
  contentType := "future_object".toList
  weight := "1".toList
  keepRename := 0

theorem delivers_future (i : ℕ) (path : RString) : DeliversRow (fun _ => none) (fun _ => .null)
    (futureRow i path) (.scalar "10".toList "3".toList "null".toList (firstName i)
      "future_object".toList ("node".toList ++ ':' :: path.text) ten_ne_eight) := by
  have hcode : decimal (futureRow i path).compssType = "10".toList :=
    (by decide : decimal 10 = "10".toList)
  have hpath := @DeliversRow.path (fun _ => none) (fun _ => .null) (futureRow i path) path.text
    "node".toList "3".toList "null".toList (hcode ▸ ten_ne_eight) rfl
  simp only [hcode] at hpath
  exact hpath

theorem firstCall_arguments : (firstCall uid a b h).arguments =
    [(firstName 0, futureOf a), (firstName 1, futureOf b)] := rfl

theorem firstCall_proper (F : Functions) : (firstCall uid a b h).Proper
    (.ofFunctions plainPackages none F fun _ => none) fun _ => .null where
  returned := by
    let result : Text := returnValueFilename "/tmp".toList "cpp".toList uid.text
    refine ⟨.list result, _, _, result, rfl, rfl, rfl, ⟨rfl,
      [futureRow 0 a, futureRow 1 b],
      returnRow (firstCall uid a b h).surroundings "cpp".toList, fun i => ?_,
      .cons (delivers_future 0 a) (.cons (delivers_future 1 b) .nil), rfl, fun path hpath => ?_⟩⟩
    · rcases i with _ | _ | _ | i <;> rfl
    · cases hpath
      exact ⟨"node".toList, rfl⟩
  env := rfl
  writes := plainR_writes
  noSymbol := by
    intro arg harg
    simp only [firstCall_arguments, List.mem_cons, List.not_mem_nil, or_false] at harg
    rcases harg with rfl | rfl <;> rfl
  accepted := firstTask_methods.1
  colonFree := by
    refine ⟨(by decide : ':' ∉ "/tmp".toList), fun arg harg => ?_⟩
    simp only [firstCall_arguments, List.mem_cons, List.not_mem_nil, or_false] at harg
    rcases harg with rfl | rfl
    · exact (by decide : ':' ∉ firstName 0)
    · exact (by decide : ':' ∉ firstName 1)
  overwrites m hm path := by
    have hcpp : m = "cpp".toList := firstTask_methods.2 m hm
    exact overwrites_cpp plainPackages (hcpp ▸ rfl) path
/-- It merges the two futures it is called on. -/
theorem firstCall_merges : MergesFutures firstTask "first.R".toList [a.text, b.text]
    (firstCall uid a b h) where
  task := rfl
  moduleFile := rfl
  futures := .cons ⟨⟨rfl, rfl⟩, rfl⟩ (.cons ⟨⟨rfl, rfl⟩, rfl⟩ .nil)

theorem firstCall_known {calls : List Call} (ha : ∃ call ∈ calls, call.output = a.text)
    (hb : ∃ call ∈ calls, call.output = b.text) : (firstCall uid a b h).Known calls := by
  intro arg harg path hfuture
  simp only [firstCall_arguments, List.mem_cons, List.not_mem_nil, or_false] at harg
  rcases harg with rfl | rfl
  · cases hfuture.2
    exact ha
  · cases hfuture.2
    exact hb

end

/-- On the executors `first` is the first of its arguments. -/
theorem pairAndFirst_first (moduleFile : Text) (vs : List SEXP) :
    pairAndFirst moduleFile "first".toList (variadicArguments "first".toList vs) = vs.head? := by
  cases vs with
  | nil => rfl
  | cons v vs =>
    have hlength := length_variableArgumentNames "first".toList (v :: vs).length
    obtain ⟨name, names, hnames⟩ := List.exists_cons_of_length_eq_add_one hlength
    unfold variadicArguments
    rw [hnames]
    rfl

/-- What it is called on are the values of the two futures. -/
theorem firstCall_value (F : Functions) {uid : UID} {a b : RString} {h : ∀ w ∈ firstWords a.text
    b.text (returnValueFilename "/tmp".toList "cpp".toList uid.text), IsWord isSpace w}
    {σ : Text → Option SEXP} {x y : SEXP} (ha : σ a.text = some x) (hb : σ b.text = some y) :
    (firstCall uid a b h).value (.ofFunctions plainPackages none F fun _ => none)
      (fun _ => .null) σ =
        F "first.R".toList "first".toList (variadicArguments "first".toList [x, y]) := by
  have hvalue : (firstCall uid a b h).value (.ofFunctions plainPackages none F fun _ => none)
      (fun _ => .null) σ = _ := firstCall_merges.value_eq rfl
  rw [hvalue, List.map_cons, List.map_singleton, ha, hb]
  rfl

theorem mergeUID_alphanum : ∀ c ∈ List.replicate 50 'b', c.isAlphanum = true :=
  List.all_eq_true.mp (by decide)

theorem finishUID_alphanum : ∀ c ∈ List.replicate 50 'c', c.isAlphanum = true :=
  List.all_eq_true.mp (by decide)

def mergeUID : UID :=
  { sampleUID with
    random := List.replicate 50 'b'
    random_length := rfl
    random_alphanum := mergeUID_alphanum }

def finishUID : UID :=
  { sampleUID with
    random := List.replicate 50 'c'
    random_length := rfl
    random_alphanum := finishUID_alphanum }

def mergeFile : Text := returnValueFilename "/tmp".toList "cpp".toList mergeUID.text

theorem resultPath_noNul : (0 : UInt8) ∉ asciiBytes resultFile := by decide

theorem mergePath_noNul : (0 : UInt8) ∉ asciiBytes mergeFile := by decide

theorem resultPath_short : (asciiBytes resultFile).length < 2 ^ 31 := by decide

theorem mergePath_short : (asciiBytes mergeFile).length < 2 ^ 31 := by decide

def resultPath : RString := ⟨asciiBytes resultFile, resultPath_noNul, resultPath_short⟩

def mergePath : RString := ⟨asciiBytes mergeFile, mergePath_noNul, mergePath_short⟩

theorem resultPath_text : resultPath.text = resultFile := by decide

theorem mergePath_text : mergePath.text = mergeFile := by decide

theorem mergeWords : ∀ w ∈ firstWords resultPath.text resultPath.text
    (returnValueFilename "/tmp".toList "cpp".toList mergeUID.text), IsWord isSpace w := by
  decide +kernel

theorem finishWords : ∀ w ∈ firstWords resultPath.text mergePath.text
    (returnValueFilename "/tmp".toList "cpp".toList finishUID.text), IsWord isSpace w := by
  decide +kernel

def mergeCall : Call := firstCall mergeUID resultPath resultPath mergeWords

def finishCall : Call := firstCall finishUID resultPath mergePath finishWords

/-- Three times the future of `pair(1:2)`, two of which are merged at a time. -/
def threeReduced : Reduction 2 [resultFile, resultFile, resultFile] where
  merge := firstTask
  mergeFile := "first.R".toList
  finish := firstTask
  finishFile := "first.R".toList
  calls := [mergeCall]
  left := [resultFile, mergeFile]
  last := finishCall
  loop := .turn (by decide) (by decide) (resultPath_text ▸ firstCall_merges) (.done le_rfl)
  finishes := resultPath_text ▸ mergePath_text ▸ firstCall_merges
  variadic := ⟨rfl, rfl⟩

/-- The program of these calls. -/
def threeMade : Program Text :=
  Program.step firstConfig (.call finishCall) (Program.step firstConfig (.call mergeCall)
    (Program.step firstConfig (.call pairCall) (.start (fun _ => none) fun _ => freshExecutor)))

/-- Whatever the executors make of the names of functions, the master can make the calls. -/
theorem threeCalls_reached (F : Functions) {c : Config Text} {start : Program Text}
    (hc : c = .ofFunctions plainPackages none F fun _ => none)
    (hstart : start = .start (fun _ => none) fun _ => freshExecutor) :
    Reached (Program.step c) (Program.Allowed c fun _ => .null) start
      (Program.step c (.call finishCall) (Program.step c (.call mergeCall)
        (Program.step c (.call pairCall) start))) := by
  subst hc hstart
  let c : Config Text := .ofFunctions plainPackages none F fun _ => none
  let start : Program Text := .start (fun _ => none) fun _ => freshExecutor
  have hpair : Program.Allowed c (fun _ => .null) start (.call pairCall) := by
    refine ⟨pairCall_proper F, fun earlier hearlier => ?_, fun arg harg path hfuture => ?_⟩
    · cases hearlier
    · cases hfuture.2
  have hmerge : Program.Allowed c (fun _ => .null)
      (Program.step c (.call pairCall) start) (.call mergeCall) := by
    refine ⟨firstCall_proper F, fun earlier hearlier i _ j _ => ?_, ?_⟩
    · cases List.mem_singleton.mp hearlier
      exact (by decide : mergeUID ≠ sampleUID)
    · exact firstCall_known ⟨pairCall, List.mem_cons_self, resultPath_text.symm⟩
        ⟨pairCall, List.mem_cons_self, resultPath_text.symm⟩
  have hfinish : Program.Allowed c (fun _ => .null)
      (Program.step c (.call mergeCall) (Program.step c (.call pairCall) start))
      (.call finishCall) := by
    refine ⟨firstCall_proper F, fun earlier hearlier i _ j _ => ?_, ?_⟩
    · rcases List.mem_cons.mp hearlier with rfl | hearlier
      · exact (by decide : finishUID ≠ mergeUID)
      · cases List.mem_singleton.mp hearlier
        exact (by decide : finishUID ≠ sampleUID)
    · exact firstCall_known
        ⟨pairCall, List.mem_cons_of_mem _ List.mem_cons_self, resultPath_text.symm⟩
        ⟨mergeCall, List.mem_cons_self, mergePath_text.symm⟩
  exact .next _ (.next _ (.next _ .start hpair) hmerge) hfinish

theorem threeMade_reached : Reached (Program.step firstConfig)
    (Program.Allowed firstConfig fun _ => .null) (.start (fun _ => none) fun _ => freshExecutor)
    threeMade :=
  threeCalls_reached pairAndFirst rfl rfl

theorem threeReduced_computes : threeReduced.Computes firstConfig List.head? List.head?
    (· = trueValue.value) where
  merge_eq := pairAndFirst_first "first.R".toList
  finish_eq := pairAndFirst_first "first.R".toList
  merge_kept vs hvs v hv := hvs v (List.mem_of_mem_head? hv)
  finish_kept vs hvs v hv := hvs v (List.mem_of_mem_head? hv)
  carried := by
    rintro _ rfl
    rw [carried_eq _ trueValue (bare_payload _)]
    exact congrArg some (bare_retained _)

theorem own_result (uid : UID) : Hop.OwnFormat plainPackages none
    ⟨returnValueFilename "/tmp".toList "cpp".toList uid.text, "cpp".toList⟩ where
  writable := rfl
  written := (by decide : writtenFormat none "cpp".toList = some .cpp)
  read := (readFormat_return _ (by decide) (by decide) uid).trans (by decide)

/-- What the format retains whole comes back from every file of a result. -/
theorem own_carried (uid : UID) (v : Serialization.ShortValue)
    (hretained : Serialization.retained v.value = v.value)
    (hpayload : (Serialization.payload v.value).isSome = true) :
    transported plainPackages none (returnValueFilename "/tmp".toList "cpp".toList uid.text)
      "cpp".toList v.value = some v.value := by
  rw [(own_result uid).transported_eq, carried_eq _ v hpayload, hretained]

theorem own_written (uid : UID) (v : Serialization.ShortValue)
    (hretained : Serialization.retained v.value = v.value)
    (hpayload : (Serialization.payload v.value).isSome = true) (old : Option Bytes) :
    ∃ content, exec (rcompssSerialize plainPackages none v.value
      (returnValueFilename "/tmp".toList "cpp".toList uid.text) "cpp".toList) old =
        (.ok (), content) := by
  obtain ⟨content, hrun, -⟩ :=
    plain_transported v old (own_result uid).read hretained hpayload
  exact ⟨content, hrun⟩

/-- All results of the program are `TRUE`. -/
theorem threeMade_results :
    results firstConfig (fun _ => .null) threeMade.calls resultFile = some trueValue.value ∧
      results firstConfig (fun _ => .null) threeMade.calls mergeFile = some trueValue.value := by
  have hmade := madeInTurn threeMade_reached
  have hpair : results firstConfig (fun _ => .null) threeMade.calls resultFile =
      some trueValue.value := by
    have houtput := hmade.results_output pairCall (by simp [threeMade, Program.step])
    unfold Call.result at houtput
    rw [show pairCall.value firstConfig _ _ = _ from pairCall_value pairAndFirst _] at houtput
    exact houtput.trans (own_carried sampleUID trueValue (bare_retained _) (bare_payload _))
  have houtput := hmade.results_output mergeCall (by simp [threeMade, Program.step])
  have hresult := resultPath_text.symm ▸ hpair
  unfold Call.result at houtput
  rw [show mergeCall.value firstConfig _ _ = _ from firstCall_value pairAndFirst hresult hresult]
    at houtput
  exact ⟨hpair, houtput.trans (own_carried mergeUID trueValue (bare_retained _) (bare_payload _))⟩

theorem threeMade_returns : ∀ call ∈ threeMade.calls, Returns plainPackages none pairAndFirst
    (fun _ => none) (fun _ => .null) threeMade.calls call := by
  have hpair := resultPath_text.symm ▸ threeMade_results.1
  have hmerge := mergePath_text.symm ▸ threeMade_results.2
  have hwritten := fun uid => own_written uid trueValue (bare_retained _) (bare_payload _)
  intro call hcall
  rcases List.mem_cons.mp hcall with rfl | hcall
  · exact ⟨_, firstCall_value pairAndFirst hpair hmerge, hwritten finishUID⟩
  rcases List.mem_cons.mp hcall with rfl | hcall
  · exact ⟨_, firstCall_value pairAndFirst hpair hpair, hwritten mergeUID⟩
  · cases List.mem_singleton.mp hcall
    exact ⟨_, pairCall_value pairAndFirst _, hwritten sampleUID⟩

/-- R with the files of a system at hand. -/
def awaitingFiles (files : Files) : Awaiting where
  eval object attrib := .ok (.other object attrib)
  asList _ := .ok []
  asCharacter _ := .ok []
  outputfile := futureFile
  getFile _ := .ok ()
  unserialize path :=
    match readable plainPackages files path with
    | some x => .ok x
    | none => .error (.raised "Failed to unserialize object".toList)

def finishFile : Text := returnValueFilename "/tmp".toList "cpp".toList finishUID.text

theorem finishPath_noNul : (0 : UInt8) ∉ asciiBytes finishFile := by decide

theorem finishPath_short : (asciiBytes finishFile).length < 2 ^ 31 := by decide

def finishPath : RString := ⟨asciiBytes finishFile, finishPath_noNul, finishPath_short⟩

theorem finishPath_text : finishPath.text = finishFile := by decide

/-- Three times `TRUE` is reduced to `TRUE`, once the runtime has done all tasks. -/
theorem three_reduced_to_first : ∃ s : State Text,
    (exec (rcompssWaitOn (awaitingFiles s.files) (futureOf finishPath)) []).1 =
      .ok trueValue.value := by
  obtain ⟨s, hreached, hall⟩ := program_completes threeMade_reached
    (runnable_of_returns threeMade_reached threeMade_returns) 0
  have hawaits : Awaits (awaitingFiles s.files) firstConfig s := by
    refine ⟨fun _ _ => rfl, fun path x hread => ?_⟩
    have hfile : readable plainPackages s.files path = some x := hread
    simp only [awaitingFiles, hfile]
  have hpair := threeMade_results.1
  have hown : ∀ call ∈ threeReduced.last :: threeReduced.calls, call ∈ threeMade.calls ∧
      Hop.OwnFormat firstConfig.packages firstConfig.env ⟨call.output, call.returnMethod⟩ := by
    intro call hcall
    rcases List.mem_cons.mp hcall with rfl | hcall
    · exact ⟨List.mem_cons_self, own_result finishUID⟩
    · cases List.mem_singleton.mp hcall
      exact ⟨List.mem_cons_of_mem _ List.mem_cons_self, own_result mergeUID⟩
  refine ⟨s, ?_⟩
  exact reduction_gives_R_result firstConfig (fun _ => .null) (fun _ => none)
    (fun _ => freshExecutor) { threeMade with system := s } (threeMade_reached.trans hreached) 2
    le_rfl [resultFile, resultFile, resultFile] threeReduced List.head? List.head?
    (· = trueValue.value) threeReduced_computes hown
    [trueValue.value, trueValue.value, trueValue.value]
    (.cons ⟨hpair, rfl⟩ (.cons ⟨hpair, rfl⟩ (.cons ⟨hpair, rfl⟩ .nil)))
    (hall finishCall List.mem_cons_self).1 (awaitingFiles s.files) hawaits (futureOf finishPath)
    rfl rfl (congrArg Except.ok finishPath_text) [] trueValue.value rfl

end RCompss.System
