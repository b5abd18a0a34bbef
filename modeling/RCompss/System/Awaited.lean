import RCompss.Submission.WaitOn
import RCompss.System.Program

/-! What R gets when it waits on the futures of a program. -/
namespace RCompss.System
open RCompss.Library RCompss.Payload RCompss.Executor RCompss.Submission

section
variable {ρ : Type}

/-- The runtime fetches what is done, and `rcompss_unserialize` reads it. -/
structure Awaits (a : Awaiting) (c : Config ρ) (s : State ρ) : Prop where
  getFile : ∀ path ∈ s.done, a.getFile path = .ok ()
  unserialize : ∀ path x, readable c.packages s.files path = some x → a.unserialize path = .ok x

/-- What an element of a list is to become: the future of a done call its result, anything
else itself. -/
inductive Gives (a : Awaiting) (c : Config ρ) (delivered : SEXP → ArgValue) (p : Program ρ) :
    SEXP → SEXP → Prop
  | future {x y : SEXP} {call : Call} (isFuture : IsFutureObject x) (self : a.evaluated x = .ok x)
      (names : a.outputfile x = .ok call.output) (made : call ∈ p.calls)
      (done : call.output ∈ p.system.done)
      (result : results c delivered p.calls call.output = some y) : Gives a c delivered p x y
  | plain {x : SEXP} (noFuture : ¬ IsFutureObject x) (self : a.evaluated x = .ok x) :
      Gives a c delivered p x x

/-- Waiting on a list in which there are futures of done calls gives, element by element, the
results of the calls when they are made one after the other. -/
theorem waitOn_gives_results (c : Config ρ) (delivered : SEXP → ArgValue) (files : Files)
    (executors : ℕ → Process (Node ρ)) (p : Program ρ)
    (h : Reached (Program.step c) (Program.Allowed c delivered) (.start files executors) p)
    (a : Awaiting) (ha : Awaits a c p.system) (xs ys : List SEXP) (as : List (Symbol × SEXP))
    (hlist : rClass (.vec xs as) = ["list".toList])
    (hxs : List.Forall₂ (Gives a c delivered p) xs ys) (warnings : List Text) :
    (exec (rcompssWaitOn a (.vec xs as)) warnings).1 = .ok (.vec ys []) := by
  have helement : ∀ x y, Gives a c delivered p x y → a.waitElement x = .ok y := by
    intro x y hxy
    rw [Awaiting.waitElement_eq_ok]
    cases hxy with
    | future isFuture self names made done result =>
      refine ⟨x, self, ?_⟩
      have hread := (futures_hold_results c delivered files executors p h _ made done).trans
        result
      rw [if_pos isFuture]
      unfold Awaiting.fetched Awaiting.fetchFile
      rw [names]
      simp only [Bind.bind, Except.bind, ha.getFile _ done]
      exact ha.unserialize _ _ hread
    | plain noFuture self =>
      refine ⟨x, self, ?_⟩
      rw [if_neg noFuture]
  have helements : a.waitElements xs = .ok ys := mapM_eq_ok.mpr (hxs.imp helement)
  rw [Awaiting.waitOn_list hlist, helements]

end

/-- An atomic vector without attributes, which the format always knows. -/
def isBareVector : SEXP → Bool
  | .atom _ [] => true
  | _ => false

theorem payload_bareVector {v : SEXP} (h : isBareVector v = true) :
    (Serialization.payload v).isSome = true := by
  unfold isBareVector at h
  split at h
  · exact bare_payload _
  · cases h

/-- R without packages, on a disk where everything can be written. -/
def plainR : Surroundings where
  inspect := rInspect fun _ => none
  env := none
  masterWorkingDir := "/tmp".toList
  workingDir := "/home".toList
  outputfile _ := .error (.raised "not a list".toList)
  serialize object _ method :=
    if writtenFormat none method = some .cpp ∧
        (isBareVector object ∨ (Serialization.payload object).isSome) then .ok ()
    else .error (.raised "Failed to serialize object".toList)
  uid _ := sampleUID

/-- `pair(1:2)`, with `pair` decorated to return a value. -/
def pairCall : Call where
  surroundings := plainR
  task := { addTask with
    fName := "pair".toList
    formals := [("x".toList, missingArg)]
    filename := "pair.R".toList }
  values := [([], oneTwo.value)]
  session := ⟨[], []⟩
  line := pairTask

/-- Without packages only the own format is written. -/
theorem plainR_writes : WritesWith plainR plainPackages := by
  intro object path method old
  by_cases hcpp : writtenFormat none method = some .cpp
  · have hserialize : plainR.serialize object path method = .ok () ↔
        (Serialization.payload object).isSome := by
      have hbare := payload_bareVector (v := object)
      unfold plainR
      by_cases hp : (Serialization.payload object).isSome = true
      · simp [hcpp, hp]
      · simp [hcpp, hp, mt hbare hp]
    rw [hserialize, show plainR.env = none from rfl, rcompssSerialize_cpp hcpp, exec_tryCatch]
    rcases exec_serializeFile (rfl : plainPackages.writable path = true) object old with
      ⟨p, hp, hrun⟩ | ⟨hp, left, hrun⟩
    · simp [hp, hrun]
    · simp [hp, hrun]
  · have hraise : ∃ e left, exec (rcompssSerialize plainPackages none object path method) old =
        (.error e, left) := by
      unfold writtenFormat at hcpp
      unfold rcompssSerialize
      simp only at hcpp ⊢
      rw [exec_tryCatch]
      generalize (if method = [] then getDefaultSerializationMethod none else method) = m
        at hcpp ⊢
      have hm : lower m ≠ "cpp".toList := fun h => hcpp (if_pos h)
      simp only [if_neg hm]
      by_cases hqs : lower m = "qs".toList
      · simp only [if_pos hqs]
        exact ⟨_, _, rfl⟩
      by_cases hmvl : lower m = "rmvl".toList
      · simp only [if_neg hqs, if_pos hmvl]
        exact ⟨_, _, rfl⟩
      · simp only [if_neg hqs, if_neg hmvl]
        exact ⟨_, _, rfl⟩
    obtain ⟨e, left, hrun⟩ := hraise
    have hserialize : plainR.serialize object path method =
        .error (.raised "Failed to serialize object".toList) := if_neg fun h => hcpp h.1
    rw [hserialize, show plainR.env = none from rfl, hrun]
    simp

theorem pairCall_proper (F : Functions) :
    pairCall.Proper (.ofFunctions plainPackages none F fun _ => none) fun _ => .null where
  returned := by
    refine ⟨.list resultFile, _, _, resultFile, rfl, rfl, rfl, ⟨rfl,
      [inputRow plainR.inspect ("x".toList, oneTwo.value) (.path argumentFile)],
      returnRow plainR "cpp".toList, fun i => ?_, .cons ?_ .nil, rfl, fun path hpath => ?_⟩⟩
    · rcases i with _ | _ | i <;> rfl
    · exact .path "node".toList "3".toList "null".toList rfl
    · cases hpath
      exact ⟨"node".toList, rfl⟩
  env := rfl
  writes := plainR_writes
  noSymbol := by decide
  accepted := by decide
  colonFree := by decide
  overwrites m hm path := by
    have hcpp : m = "cpp".toList := by
      revert m
      decide
    exact overwrites_cpp plainPackages (hcpp ▸ rfl) path

/-- The program of this one call, before its task is started. -/
def pairMade : Program Text := ⟨pairSubmitted, [pairCall]⟩

theorem pairMade_reached : Reached (Program.step pairConfig)
    (Program.Allowed pairConfig fun _ => .null) (.start (fun _ => none) fun _ => freshExecutor)
    pairMade := by
  let start : Program Text := .start (fun _ => none) fun _ => freshExecutor
  have hcall : Program.Allowed pairConfig (fun _ => .null) start (.call pairCall) := by
    refine ⟨pairCall_proper pair, fun earlier hearlier => ?_, fun arg harg path hfuture => ?_⟩
    · cases hearlier
    · cases hfuture.2
  exact .next _ .start hcall

/-- The same program when the task is done. -/
def pairProgram : Program Text := ⟨pairDone, [pairCall]⟩

theorem pairProgram_reached : Reached (Program.step pairConfig)
    (Program.Allowed pairConfig fun _ => .null) (.start (fun _ => none) fun _ => freshExecutor)
    pairProgram := by
  have hstart : Program.Allowed pairConfig (fun _ => .null) pairMade
    (.runtime (.start pairTask 0)) := ⟨trivial, pair_start_allowed⟩
  have hfinish : Program.Allowed pairConfig (fun _ => .null) ⟨pairStarted, [pairCall]⟩
    (.runtime (.finish pairTask pairStarted.files some)) := ⟨trivial, pair_finish_allowed⟩
  exact .next _ (.next _ pairMade_reached hstart) hfinish

/-- The function gets `1:2` back from its file. -/
theorem pairCall_value (F : Functions) (σ : Text → Option SEXP) :
    pairCall.value (.ofFunctions plainPackages none F fun _ => none) (fun _ => .null) σ =
      F "pair.R".toList "pair".toList [("x".toList, .object oneTwo.value)] := by
  obtain ⟨content, hrun, hback⟩ := oneTwo_transported none
  have hargument : transported plainPackages none argumentFile "cpp".toList oneTwo.value =
      some oneTwo.value := by
    unfold transported
    rw [hrun]
    simp only [hback]
    rfl
  have harguments : argumentsIn plainPackages (fun _ => .null) plainR "cpp".toList 1 σ
      [("x".toList, oneTwo.value)] = some [.object oneTwo.value] := by
    have hobject : processSingleArgument plainR.inspect oneTwo.value = (10, "object".toList) := rfl
    have hpath : argumentPath plainR "cpp".toList 1 "x".toList = argumentFile := rfl
    unfold argumentsIn argumentIn
    simp only [hobject, and_self, if_true, hpath]
    rw [show plainR.env = none from rfl, hargument]
    rfl
  unfold Call.value
  rw [show argumentsIn (Config.ofFunctions plainPackages none F fun _ => none).packages
    (fun _ => .null) pairCall.surroundings pairCall.argumentMethod 1 σ pairCall.arguments =
      some [.object oneTwo.value] from harguments]
  rfl

theorem pairCall_result (σ : Text → Option SEXP) :
    pairCall.result pairConfig (fun _ => .null) σ = some trueValue.value := by
  obtain ⟨content, hrun, hback⟩ := true_transported none
  have hvalue : pairCall.value pairConfig (fun _ => .null) σ = some trueValue.value :=
    pairCall_value pair σ
  unfold Call.result
  rw [hvalue]
  unfold transported
  rw [show pairCall.output = resultFile from rfl,
    show pairCall.returnMethod = "cpp".toList from rfl]
  simp only [Option.bind_some]
  rw [show pairConfig.packages = plainPackages from rfl, show pairConfig.env = none from rfl, hrun]
  simp only [hback]
  rfl

/-- R with the files of that program at hand. -/
def pairAwaiting : Awaiting where
  eval object attrib := .ok (.other object attrib)
  asList _ := .ok []
  asCharacter _ := .ok []
  outputfile _ := .ok resultFile
  getFile _ := .ok ()
  unserialize path :=
    match readable plainPackages pairDone.files path with
    | some x => .ok x
    | none => .error (.raised "Failed to unserialize object".toList)

/-- Of `list(NULL, pair(1:2))` waiting makes `list(NULL, TRUE)`. -/
theorem pair_waitOn_gives_result :
    (exec (rcompssWaitOn pairAwaiting (.vec [.nil, waitedFuture] [])) []).1 =
      .ok (.vec [.nil, trueValue.value] []) := by
  have hawaits : Awaits pairAwaiting pairConfig pairProgram.system := by
    refine ⟨fun _ _ => rfl, fun path x hread => ?_⟩
    have hfile : readable plainPackages pairDone.files path = some x := hread
    simp only [pairAwaiting, hfile]
  have hresult : results pairConfig (fun _ => .null) [pairCall] pairCall.output =
      some trueValue.value := (Function.update_self _ _ _).trans (pairCall_result _)
  exact waitOn_gives_results pairConfig (fun _ => .null) (fun _ => none) (fun _ => freshExecutor)
    pairProgram pairProgram_reached pairAwaiting hawaits [.nil, waitedFuture]
    [.nil, trueValue.value] [] rfl
    (.cons (.plain (by decide) rfl) (.cons (.future rfl rfl rfl List.mem_cons_self pair_succeeded
      hresult) .nil)) []

end RCompss.System
