import RCompss.Submission.Markers
import RCompss.Submission.Alignment

/-! Runs of decorated calls in one session, and the registrations they make. -/
namespace RCompss.Submission
open RCompss.Library RCompss.Payload

/-- A call of a decorated function. -/
structure Invocation where
  surroundings : Surroundings
  task : DecoratedTask
  values : List (Text × SEXP)

/-- The session after a call, however it ended. -/
def Invocation.run (i : Invocation) (s : Session) : Session :=
  (exec (rcompssExecuteDecoratedTask i.surroundings i.task i.values) s).2

def runInvocations : List Invocation → Session → Session
  | [], s => s
  | i :: is, s => runInvocations is (i.run s)

/-- Function name and constraints: what a registration is for. -/
def DecoratedTask.key (task : DecoratedTask) : Text × Constraints :=
  (task.fName, task.constraints)

/-- A registration of the function with its own constraint string and locality. -/
structure Registers (task : DecoratedTask) (element : CoreElement) : Prop where
  signature : element.ceSignature = task.fName
  constraints : constraintString (implConstraintSet task.constraints) = .ok element.implConstraints
  isLocal : implLocal task.constraints = .ok element.implLocal

theorem registers_of_coreElement {task : DecoratedTask} {path : Text} {element : CoreElement}
    (h : coreElement task path = .ok element) : Registers task element := by
  unfold coreElement at h
  obtain ⟨isLocal, hlocal, h⟩ := except_bind_eq_ok.mp h
  obtain ⟨constraints, hconstraints, h⟩ := except_bind_eq_ok.mp h
  cases h
  exact ⟨rfl, hconstraints, hlocal⟩

/-- No marker is set. -/
def Fresh (s : Session) : Prop := ∀ name ∈ s.globals, ¬ "registered_".toList <+: name

/-- Every marker in the session is that of a call made before, whose function was registered
under the same key. -/
def MarkersKept (done : List Invocation) (s : Session) : Prop :=
  ∀ name ∈ s.globals, "registered_".toList <+: name → ∃ i ∈ done,
    registerMarker i.task.fName i.task.constraints = .ok name ∧
      ∃ element, Registers i.task element ∧ .registerCoreElement element ∈ s.calls

theorem Fresh.markersKept {s : Session} (h : Fresh s) : MarkersKept [] s :=
  fun name hname hmarker => absurd hmarker (h name hname)

theorem MarkersKept.mono {done done' : List Invocation} {s s' : Session}
    (h : MarkersKept done s) (hdone : done ⊆ done') (hglobals : s'.globals = s.globals)
    (hcalls : s.calls ⊆ s'.calls) : MarkersKept done' s' := by
  intro name hname hmarker
  obtain ⟨i, hi, hspelled, element, helement, hcall⟩ := h name (hglobals ▸ hname) hmarker
  exact ⟨i, hdone hi, hspelled, element, helement, hcalls hcall⟩

theorem Registered.markersKept {done : List Invocation} {i : Invocation} {path : Text}
    {s s' : Session} (h : MarkersKept done s) (hstep : Registered i.task path s s') :
    MarkersKept (i :: done) s' := by
  cases hstep with
  | known => exact h.mono (List.subset_cons_self _ _) rfl (List.Subset.refl _)
  | @new marker element spelled unknown built =>
    intro name hname hmarker
    rcases List.mem_cons.mp hname with rfl | hname
    · exact ⟨i, by simp, spelled, element, registers_of_coreElement built, by simp⟩
    · obtain ⟨j, hj, hspelled, e, he, hcall⟩ := h name hname hmarker
      exact ⟨j, List.mem_cons_of_mem _ hj, hspelled, e, he, List.mem_append_left _ hcall⟩

/-- One call keeps the markers. -/
theorem Step.markersKept {done : List Invocation} {i : Invocation} {s s' : Session}
    (h : MarkersKept done s) (hstep : Step i.surroundings i.task i.values s s') :
    MarkersKept (i :: done) s' := by
  cases hstep with
  | idle => exact h.mono (List.subset_cons_self _ _) rfl (List.Subset.refl _)
  | registered hregistered => exact hregistered.markersKept h
  | submitted _ _ hregistered _ =>
    exact (hregistered.markersKept h).mono (List.Subset.refl _) rfl (List.subset_append_left _ _)

/-- And so does a run. -/
theorem markersKept_run {done : List Invocation} {s : Session} (h : MarkersKept done s)
    (is : List Invocation) : MarkersKept (is.reverse ++ done) (runInvocations is s) := by
  induction is generalizing done s with
  | nil => exact h
  | cons i is ih =>
    have hi : MarkersKept (i :: done) (i.run s) :=
      Step.markersKept h (exec_decorated i.surroundings i.task i.values s)
    have hrun := ih hi
    rw [List.reverse_cons, List.append_assoc]
    exact hrun

/-- Calls of different functions or constraint sets are not spelled alike. -/
def DistinctlySpelled (is : List Invocation) : Prop :=
  ∀ i ∈ is, ∀ j ∈ is, i.task.key ≠ j.task.key → ¬ SpelledAlike i.task j.task

theorem DistinctlySpelled.key_eq {is : List Invocation} (h : DistinctlySpelled is)
    {i j : Invocation} (hi : i ∈ is) (hj : j ∈ is) {marker : Text}
    (hmarker : registerMarker i.task.fName i.task.constraints = .ok marker)
    (hmarker' : registerMarker j.task.fName j.task.constraints = .ok marker) :
    i.task.key = j.task.key := by
  by_contra hkey
  exact h i hi j hj hkey ((marker_eq_iff hmarker hmarker').mp rfl)

theorem Registers.of_key {task task' : DecoratedTask} {element : CoreElement}
    (h : Registers task element) (hkey : task.key = task'.key) : Registers task' element := by
  obtain ⟨hname, hconstraints⟩ := Prod.mk.inj hkey
  exact ⟨hname ▸ h.signature, hconstraints ▸ h.constraints, hconstraints ▸ h.isLocal⟩

theorem registered_of_marker {fName marker : Text} {cs : Constraints}
    (h : registerMarker fName cs = .ok marker) : "registered_".toList <+: marker := by
  obtain ⟨text, -, rfl⟩ := registerMarker_eq_ok.mp h
  exact List.prefix_append _ _

/-- In a run from a session without markers whose different tasks are spelled differently,
their markers differ, each task submitted was registered before with its own constraints, and
the first call for a key makes that registration itself. -/
theorem run_registers {is : List Invocation} (hspelled : DistinctlySpelled is) {s : Session}
    (hfresh : Fresh s) :
    (∀ i ∈ is, ∀ j ∈ is, i.task.key ≠ j.task.key → ∀ marker,
        registerMarker i.task.fName i.task.constraints = .ok marker →
          registerMarker j.task.fName j.task.constraints ≠ .ok marker) ∧
      ∀ before i after t, is = before ++ i :: after →
        Submits i.surroundings i.task i.values (runInvocations before s) t →
          ∃ calls element, (i.run (runInvocations before s)).calls = calls ++ [.processTask t] ∧
            Registers i.task element ∧ .registerCoreElement element ∈ calls ∧
            ((∀ j ∈ before, j.task.key ≠ i.task.key) →
              calls = (runInvocations before s).calls ++ [.registerCoreElement element]) := by
  constructor
  · intro i hi j hj hkey marker hmarker hmarker'
    exact hkey (hspelled.key_eq hi hj hmarker hmarker')
  · rintro before i after t rfl hsubmits
    have hkept := markersKept_run hfresh.markersKept before
    obtain ⟨_, _, _, path, s', -, -, -, -, hregistered, hcalls⟩ := hsubmits.cases
    cases hregistered with
    | @known marker hmarker hknown =>
      obtain ⟨j, hj, hmarker', element, helement, hcall⟩ :=
        hkept marker hknown (registered_of_marker hmarker)
      have hjbefore : j ∈ before := by simpa using hj
      have hkey := hspelled.key_eq (List.mem_append_left _ hjbefore) (by simp) hmarker' hmarker
      exact ⟨_, element, hcalls, helement.of_key hkey, hcall,
        fun hfirst => absurd hkey (hfirst j hjbefore)⟩
    | @new marker element hmarker hunknown hbuilt =>
      exact ⟨_, element, hcalls, registers_of_coreElement hbuilt, by simp, fun _ => rfl⟩

/-- A call of `solve <- function()` under the constraints it was given. -/
def solveCall (args : List (Text × ConstraintArg)) : Invocation where
  surroundings := plainSurroundings
  task := {
    fName := "solve".toList
    formals := []
    constraints := constraint [] args
    filename := "solve.R".toList
    returnValue := false
    returnType := "list".toList
    serMethod := addTask.serMethod
    infoOnly := false }
  values := []

/-- One constraint, with a text for its value. -/
def constrainedTo (name value : String) : Text × ConstraintArg :=
  (name.toList, .character [some value.toList])

def smallCall : Invocation := solveCall [constrainedTo "computing_units" "2"]

def largeCall : Invocation := solveCall [constrainedTo "computing_units" "4"]

/-- Two sizes of one function, each registered before it runs. -/
theorem sizes_registered : DistinctlySpelled [smallCall, largeCall] ∧
    ∃ calls t element, (largeCall.run (runInvocations [smallCall] ⟨[], []⟩)).calls =
        calls ++ [.processTask t] ∧
      Registers largeCall.task element ∧ .registerCoreElement element ∈ calls := by
  have hsmall : registerMarker smallCall.task.fName smallCall.task.constraints =
      .ok "registered_solve_computingUnits_2".toList := rfl
  have hlarge : registerMarker largeCall.task.fName largeCall.task.constraints =
      .ok "registered_solve_computingUnits_4".toList := rfl
  have hspelled : DistinctlySpelled [smallCall, largeCall] := by
    intro i hi j hj hkey halike
    simp only [List.mem_cons, List.not_mem_nil, or_false] at hi hj
    rcases hi with rfl | rfl <;> rcases hj with rfl | rfl
    · exact hkey rfl
    · have heq := (marker_eq_iff hsmall hlarge).mpr halike
      revert heq
      decide
    · have heq := (marker_eq_iff hlarge hsmall).mpr halike
      revert heq
      decide
    · exact hkey rfl
  have hfresh : Fresh ⟨[], []⟩ := by simp [Fresh]
  obtain ⟨-, hruns⟩ := run_registers hspelled hfresh
  obtain ⟨calls, element, hcalls, helement, hmem, -⟩ :=
    hruns [smallCall] largeCall [] _ rfl ⟨[_], rfl⟩
  exact ⟨hspelled, calls, _, element, hcalls, helement, hmem⟩

/-- The same sizes among other constraints, whose names fill the marker. -/
def longSmallCall : Invocation := solveCall [constrainedTo "computing_units" "2",
  constrainedTo "memory_size" "8", constrainedTo "storage_size" "100"]

def longLargeCall : Invocation := solveCall [constrainedTo "computing_units" "4",
  constrainedTo "memory_size" "8", constrainedTo "storage_size" "100"]

/-- The second size runs without ever being registered. -/
theorem long_constraints_collide : longSmallCall.task.key ≠ longLargeCall.task.key ∧
    registerMarker longSmallCall.task.fName longSmallCall.task.constraints =
      registerMarker longLargeCall.task.fName longLargeCall.task.constraints ∧
    ∃ t calls, (longLargeCall.run (runInvocations [longSmallCall] ⟨[], []⟩)).calls =
        calls ++ [.processTask t] ∧
      ∀ element, Registers longLargeCall.task element → .registerCoreElement element ∉ calls := by
  refine ⟨by decide, rfl, _, [_, _], rfl, ?_⟩
  intro element helement hmem
  simp only [List.mem_cons, RuntimeCall.registerCoreElement.injEq, reduceCtorEq,
    List.not_mem_nil, or_false] at hmem
  subst hmem
  have hown : constraintString (implConstraintSet longLargeCall.task.constraints) =
      .ok "computingUnits:4;memorySize:8;storageSize:100;".toList := rfl
  have heq := Except.ok.inj (hown.symm.trans helement.constraints)
  revert heq
  decide

end RCompss.Submission
