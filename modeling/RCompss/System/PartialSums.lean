import RCompss.System.Reduction

/-! Partial results that the applications add up with a reduction: every one of them is added
once, whatever the runtime does first. -/
namespace RCompss.System
open RCompss.Library RCompss.Payload RCompss.Executor RCompss.Submission

/-- `merge` of the applications, with the `+` of R. It stops when there is nothing to merge. -/
def merge (plus : SEXP → SEXP → Option SEXP) : List SEXP → Option SEXP
  | [] => none
  | [v] => some v
  | accum :: v :: vs => (v :: vs).foldlM plus accum

theorem merge_cons (plus : SEXP → SEXP → Option SEXP) (v : SEXP) (vs : List SEXP) :
    merge plus (v :: vs) = vs.foldlM plus v := by
  cases vs <;> rfl

/-- Waiting on the future of a reduction with `merge` gives a value, and it is put together by
`+` from all the partial results, each of them taken once. -/
theorem partials_added_once {ρ : Type} (c : Config ρ) (delivered : SEXP → ArgValue)
    (files : Files) (executors : ℕ → Process (Node ρ)) (p : Program ρ)
    (h : Reached (Program.step c) (Program.Allowed c delivered) (.start files executors) p)
    (arity : ℕ) (harity : 2 ≤ arity) (partials : List Text) (hsome : partials ≠ [])
    (r : Reduction arity partials) (plus : SEXP → SEXP → Option SEXP) (K : SEXP → Prop)
    (hplus : ClosedOn plus K) (hr : r.Computes c (merge plus) (merge plus) K)
    (hcalls : ∀ call ∈ r.last :: r.calls, call ∈ p.calls ∧
      Hop.OwnFormat c.packages c.env ⟨call.output, call.returnMethod⟩)
    (vs : List SEXP)
    (hvs : List.Forall₂ (fun path v => results c delivered p.calls path = some v ∧ K v)
      partials vs)
    (hdone : r.last.output ∈ p.system.done) (a : Awaiting) (ha : Awaits a c p.system) (x : SEXP)
    (hx : IsFutureObject x) (hself : a.evaluated x = .ok x)
    (hnames : a.outputfile x = .ok r.last.output) (warnings : List Text) :
    ∃ w, (exec (rcompssWaitOn a x) warnings).1 = .ok w ∧
      ∃ added, added.Perm vs ∧ SumOf plus w added := by
  have hK : ∀ v ∈ vs, K v := (map_eq_of_forall₂ hvs).2
  have hsomeValues : vs.map some ≠ [] := by
    intro hnil
    have hlength := hvs.length_eq
    rw [List.map_eq_nil_iff.mp hnil] at hlength
    exact hsome (List.eq_nil_of_length_eq_zero hlength)
  have hmerges : MergesSums (onValues (merge plus)) (AddsUp plus K) :=
    hplus.mergesSums (merge_cons plus)
  have hpositive : 0 < arity := by omega
  obtain ⟨added, hperm, w, hw, -, hsum⟩ :=
    (SumsUp.of_values hK).merge_reduceQueue hmerges hpositive hsomeValues
  have hread := (hr.last_read h harity hcalls hvs hdone).trans hw
  exact ⟨w, waitOn_future ha hx hself hnames hdone hread warnings, added, hperm, hsum⟩

/-- The words of a logical or integer vector without attributes. -/
def integerData : SEXP → Option (List (BitVec 32))
  | .atom (.lgl data) [] => some data
  | .atom (.int data) [] => some data
  | _ => none

/-- `NA_integer_`. -/
def naWord : BitVec 32 := .intMin 32

/-- R adds words unless one is missing or the sum does not fit. -/
def addWords (x y : BitVec 32) : BitVec 32 :=
  if x = naWord ∨ y = naWord ∨ x.saddOverflow y then naWord else x + y

/-- `+` of such vectors, of the same length. -/
def plusIntegers (v w : SEXP) : Option SEXP := do
  let xs ← integerData v
  let ys ← integerData w
  if xs.length = ys.length then some (.atom (.int (List.zipWith addWords xs ys)) []) else none

/-- One truth value or integer. -/
def IsSingle (v : SEXP) : Prop := ∃ x, v = .atom (.lgl [x]) [] ∨ v = .atom (.int [x]) []

theorem integerData_single {v : SEXP} (h : IsSingle v) : ∃ x, integerData v = some [x] := by
  obtain ⟨x, rfl | rfl⟩ := h
  · exact ⟨x, rfl⟩
  · exact ⟨x, rfl⟩

theorem closedOn_plusIntegers : ClosedOn plusIntegers IsSingle := by
  intro v w hv hw
  obtain ⟨x, hx⟩ := integerData_single hv
  obtain ⟨y, hy⟩ := integerData_single hw
  refine ⟨.atom (.int [addWords x y]) [], ?_, addWords x y, .inr rfl⟩
  simp [plusIntegers, hx, hy]

/-- Such a value passes through a file whole. -/
theorem single_kept {v : SEXP} (h : IsSingle v) : ∃ short : Serialization.ShortValue,
    short.value = v ∧ Serialization.retained short.value = short.value ∧
      (Serialization.payload short.value).isSome = true := by
  obtain ⟨x, rfl | rfl⟩ := h
  · exact ⟨⟨.atom (.lgl [x]) [], rfl, rfl⟩, rfl, bare_retained _, bare_payload _⟩
  · exact ⟨⟨.atom (.int [x]) [], rfl, rfl⟩, rfl, bare_retained _, bare_payload _⟩

theorem single_carried {v : SEXP} (h : IsSingle v) : carried plainPackages v = some v := by
  obtain ⟨short, rfl, hretained, hpayload⟩ := single_kept h
  rw [carried_eq _ short hpayload, hretained]

/-- The objects among the arguments of a call. -/
def objectOf (arg : Text × ArgValue) : Option SEXP :=
  match arg.2 with
  | .object v => some v
  | _ => none

theorem mapM_objectOf {names : List Text} {vs : List SEXP} (h : names.length = vs.length) :
    (names.zip (vs.map .object)).mapM objectOf = some vs := by
  induction vs generalizing names with
  | nil => simp
  | cons v vs ih =>
    obtain ⟨name, names, rfl⟩ := List.exists_cons_of_length_eq_add_one h
    rw [List.map_cons, List.zip_cons_cons, List.mapM_cons, ih (by simpa using h)]
    rfl

/-- `merge` under the name of `first`, next to `pair`. -/
def pairAndMerge : Functions := fun moduleFile fName args =>
  if fName = "first".toList then (args.mapM objectOf).bind (merge plusIntegers)
  else pair moduleFile fName args

theorem pairAndMerge_first (moduleFile : Text) (vs : List SEXP) :
    pairAndMerge moduleFile "first".toList (variadicArguments "first".toList vs) =
      merge plusIntegers vs := by
  unfold pairAndMerge variadicArguments
  rw [if_pos rfl, mapM_objectOf (length_variableArgumentNames _ _), Option.bind_some]

def sumConfig : Config Text := .ofFunctions plainPackages none pairAndMerge fun _ => none

/-- The master makes the three calls. -/
def threeSummed : Program Text :=
  Program.step sumConfig (.call finishCall) (Program.step sumConfig (.call mergeCall)
    (Program.step sumConfig (.call pairCall) (.start (fun _ => none) fun _ => freshExecutor)))

theorem threeSummed_reached : Reached (Program.step sumConfig)
    (Program.Allowed sumConfig fun _ => .null) (.start (fun _ => none) fun _ => freshExecutor)
    threeSummed :=
  threeCalls_reached pairAndMerge rfl rfl

theorem threeReduced_adds : threeReduced.Computes sumConfig (merge plusIntegers)
    (merge plusIntegers) IsSingle where
  merge_eq := pairAndMerge_first "first.R".toList
  finish_eq := pairAndMerge_first "first.R".toList
  merge_kept := closedOn_plusIntegers.keptBy rfl (merge_cons plusIntegers)
  finish_kept := closedOn_plusIntegers.keptBy rfl (merge_cons plusIntegers)
  carried _ := single_carried

/-- `2L`, and `3L`. -/
def twoValue : SEXP := .atom (.int [2]) []

def threeValue : SEXP := .atom (.int [3]) []

theorem true_single : IsSingle trueValue.value := ⟨1, .inl rfl⟩

theorem true_plus_true : plusIntegers trueValue.value trueValue.value = some twoValue := by
  rfl

theorem true_plus_two : plusIntegers trueValue.value twoValue = some threeValue := by
  rfl

/-- What a call computes is what its file gives back. -/
theorem threeSummed_result (call : Call) (uid : UID) {v : SEXP} (hcall : call ∈ threeSummed.calls)
    (houtput : call.output = returnValueFilename "/tmp".toList "cpp".toList uid.text)
    (hmethod : call.returnMethod = "cpp".toList) (hv : IsSingle v)
    (hvalue : call.value sumConfig (fun _ => .null)
      (results sumConfig (fun _ => .null) threeSummed.calls) = some v) :
    results sumConfig (fun _ => .null) threeSummed.calls call.output = some v := by
  obtain ⟨short, rfl, hretained, hpayload⟩ := single_kept hv
  have hresult := (madeInTurn threeSummed_reached).results_output call hcall
  unfold Call.result at hresult
  rw [hvalue, Option.bind_some, hmethod] at hresult
  rw [hresult, houtput]
  exact own_carried uid short hretained hpayload

theorem threeSummed_written (uid : UID) {v : SEXP} (hv : IsSingle v) (old : Option Bytes) :
    ∃ content,
    exec (rcompssSerialize plainPackages none v
      (returnValueFilename "/tmp".toList "cpp".toList uid.text) "cpp".toList) old =
        (.ok (), content) := by
  obtain ⟨short, rfl, hretained, hpayload⟩ := single_kept hv
  exact own_written uid short hretained hpayload old

theorem threeSummed_results :
    results sumConfig (fun _ => .null) threeSummed.calls resultPath.text =
        some trueValue.value ∧
      results sumConfig (fun _ => .null) threeSummed.calls mergePath.text = some twoValue := by
  have hpair : results sumConfig (fun _ => .null) threeSummed.calls resultPath.text =
      some trueValue.value := by
    rw [resultPath_text]
    exact threeSummed_result pairCall sampleUID
      (List.mem_cons_of_mem _ (List.mem_cons_of_mem _ List.mem_cons_self)) rfl rfl true_single
      (pairCall_value pairAndMerge _)
  have hvalue : mergeCall.value sumConfig (fun _ => .null)
      (results sumConfig (fun _ => .null) threeSummed.calls) = some twoValue :=
    (firstCall_value pairAndMerge hpair hpair).trans
      ((pairAndMerge_first _ _).trans true_plus_true)
  rw [mergePath_text]
  exact ⟨hpair, threeSummed_result mergeCall mergeUID (List.mem_cons_of_mem _ List.mem_cons_self)
    rfl rfl ⟨2, .inr rfl⟩ hvalue⟩

theorem threeSummed_returns : ∀ call ∈ threeSummed.calls, Returns plainPackages none pairAndMerge
    (fun _ => none) (fun _ => .null) threeSummed.calls call := by
  obtain ⟨hpair, hmerge⟩ := threeSummed_results
  intro call hcall
  rcases List.mem_cons.mp hcall with rfl | hcall
  · refine ⟨threeValue, ?_, threeSummed_written finishUID ⟨3, .inr rfl⟩⟩
    exact (firstCall_value pairAndMerge hpair hmerge).trans
      ((pairAndMerge_first _ _).trans true_plus_two)
  rcases List.mem_cons.mp hcall with rfl | hcall
  · refine ⟨twoValue, ?_, threeSummed_written mergeUID ⟨2, .inr rfl⟩⟩
    exact (firstCall_value pairAndMerge hpair hpair).trans
      ((pairAndMerge_first _ _).trans true_plus_true)
  · cases List.mem_singleton.mp hcall
    exact ⟨trueValue.value, pairCall_value pairAndMerge _,
      threeSummed_written sampleUID true_single⟩

/-- Three times `TRUE`, added once each. -/
theorem three_truths_added : ∃ (s : State Text) (w : SEXP),
    (exec (rcompssWaitOn (awaitingFiles s.files) (futureOf finishPath)) []).1 = .ok w ∧
      ∃ added, added.Perm (List.replicate 3 trueValue.value) ∧ SumOf plusIntegers w added := by
  obtain ⟨s, hreached, hall⟩ := program_completes threeSummed_reached
    (runnable_of_returns threeSummed_reached threeSummed_returns) 0
  have hawaits : Awaits (awaitingFiles s.files) sumConfig s := by
    refine ⟨fun _ _ => rfl, fun path x hread => ?_⟩
    have hfile : readable plainPackages s.files path = some x := hread
    simp only [awaitingFiles, hfile]
  have hown : ∀ call ∈ threeReduced.last :: threeReduced.calls, call ∈ threeSummed.calls ∧
      Hop.OwnFormat sumConfig.packages sumConfig.env ⟨call.output, call.returnMethod⟩ := by
    intro call hcall
    rcases List.mem_cons.mp hcall with rfl | hcall
    · exact ⟨List.mem_cons_self, own_result finishUID⟩
    · cases List.mem_singleton.mp hcall
      exact ⟨List.mem_cons_of_mem _ List.mem_cons_self, own_result mergeUID⟩
  have hpair := resultPath_text ▸ threeSummed_results.1
  exact ⟨s, partials_added_once sumConfig (fun _ => .null) (fun _ => none)
    (fun _ => freshExecutor) { threeSummed with system := s }
    (threeSummed_reached.trans hreached) 2 le_rfl [resultFile, resultFile, resultFile] (by simp)
    threeReduced plusIntegers IsSingle closedOn_plusIntegers threeReduced_adds hown
    (List.replicate 3 trueValue.value)
    (.cons ⟨hpair, true_single⟩ (.cons ⟨hpair, true_single⟩ (.cons ⟨hpair, true_single⟩ .nil)))
    (hall finishCall List.mem_cons_self).1 (awaitingFiles s.files) hawaits (futureOf finishPath)
    rfl rfl (congrArg Except.ok finishPath_text) []⟩

end RCompss.System
