import RCompss.Library.Runs
import RCompss.Submission.Registration

/-! Runtime sessions of one R process. Registrations live in the runtime, which starts and
stops; the markers that remember them live in the global environment, which stays. -/
namespace RCompss.Submission
open RCompss.Library

inductive SessionEvent where
  | compssStart
  | compssStop
  | call (i : Invocation)

/-- An R process and what it knows of the runtime. -/
structure Master where
  session : Session
  running : Bool
  /-- The number of runtime calls made before the most recent `compss_start`. -/
  since : ℕ
  /-- The markers set since then, each with what it was set for. -/
  marked : List (Text × Text × Constraints)

def masterWorkingDirName : Text := "MASTER_WORKING_DIR".toList

/-- A process that never started the runtime. -/
def Master.launched (globals : List Text) : Master := ⟨⟨globals, []⟩, false, 0, []⟩

/-- The markers that a call sets. -/
def newMarkers (i : Invocation) (s t : Session) : List (Text × Text × Constraints) :=
  (t.globals.filter (· ∉ s.globals)).map fun marker => (marker, i.task.key)

/-- A new runtime knows no registration; nothing is taken from the global environment when one
starts or stops. A call gets to the runtime once `MASTER_WORKING_DIR` is set. -/
def Master.step : SessionEvent → Master → Master
  | .compssStart, m =>
      { session := { m.session with globals := masterWorkingDirName :: m.session.globals }
        running := true
        since := m.session.calls.length
        marked := [] }
  | .compssStop, m => { m with running := false }
  | .call i, m =>
      if masterWorkingDirName ∈ m.session.globals then
        { m with
          session := i.run m.session
          marked := newMarkers i m.session (i.run m.session) ++ m.marked }
      else m

/-- The runtime calls since the most recent `compss_start`. -/
def Master.recent (m : Master) (calls : List RuntimeCall) : List RuntimeCall := calls.drop m.since

/-- If the call submits a task, its function was registered with its constraints before that
and after the most recent `compss_start`. -/
def RegisteredSinceStart (m : Master) (i : Invocation) : Prop :=
  ∀ t, Submits i.surroundings i.task i.values m.session t →
    ∃ calls element, (i.run m.session).calls = calls ++ [.processTask t] ∧
      Registers i.task element ∧ .registerCoreElement element ∈ m.recent calls

/-- A marker that a call finds was set for the same function and constraints since the most
recent `compss_start`. -/
def MarkerFromHere (m : Master) : SessionEvent → Prop
  | .call i => ∀ marker, registerMarker i.task.fName i.task.constraints = .ok marker →
      marker ∈ m.session.globals → (marker, i.task.key) ∈ m.marked
  | _ => True

/-- Every marker set since the most recent `compss_start` goes with a registration since. -/
structure MarkedKept (m : Master) : Prop where
  since_le : m.since ≤ m.session.calls.length
  registered : ∀ p ∈ m.marked, ∃ task : DecoratedTask, task.key = p.2 ∧
    ∃ element, Registers task element ∧
      .registerCoreElement element ∈ m.recent m.session.calls

theorem launched_markedKept (globals : List Text) : MarkedKept (Master.launched globals) where
  since_le := le_rfl
  registered := by simp [Master.launched]

/-- Later calls of the session come behind those since the start. -/
theorem recent_append {m : Master} (h : m.since ≤ m.session.calls.length)
    (calls : List RuntimeCall) :
    m.recent (m.session.calls ++ calls) = m.recent m.session.calls ++ calls :=
  List.drop_append_of_le_length h

/-- What one call adds: runtime calls, and no marker without its registration. -/
def Adds (i : Invocation) (s t : Session) : Prop :=
  ∃ calls, t.calls = s.calls ++ calls ∧ ∀ p ∈ newMarkers i s t, p.2 = i.task.key ∧
    ∃ element, Registers i.task element ∧ .registerCoreElement element ∈ calls

theorem adds_of_globals_eq {i : Invocation} {s t : Session} (h : t.globals = s.globals)
    {calls : List RuntimeCall} (hcalls : t.calls = s.calls ++ calls) : Adds i s t := by
  refine ⟨calls, hcalls, fun p hp => ?_⟩
  obtain ⟨marker, hmarker, _⟩ := List.mem_map.mp hp
  rw [h] at hmarker
  simp at hmarker

theorem Registered.adds {i : Invocation} {path : Text} {s t : Session}
    (h : Registered i.task path s t) : Adds i s t := by
  cases h with
  | known => exact adds_of_globals_eq rfl (List.append_nil _).symm
  | @new marker element spelled unknown built =>
    refine ⟨[.registerCoreElement element], rfl, fun p hp => ?_⟩
    obtain ⟨name, _, rfl⟩ := List.mem_map.mp hp
    exact ⟨rfl, element, registers_of_coreElement built, by simp⟩

/-- One call of a decorated function. -/
theorem Step.adds {i : Invocation} {s t : Session}
    (h : Step i.surroundings i.task i.values s t) : Adds i s t := by
  cases h with
  | idle => exact adds_of_globals_eq rfl (List.append_nil _).symm
  | registered hregistered => exact hregistered.adds
  | submitted _ _ hregistered _ =>
    obtain ⟨calls, hcalls, hmarkers⟩ := hregistered.adds
    refine ⟨calls ++ [_], by rw [hcalls, List.append_assoc], fun p hp => ?_⟩
    obtain ⟨hkey, element, helement, hmem⟩ := hmarkers p hp
    exact ⟨hkey, element, helement, List.mem_append_left _ hmem⟩

/-- One event keeps the markers to their registrations. -/
theorem MarkedKept.step {m : Master} (h : MarkedKept m) (event : SessionEvent) :
    MarkedKept (m.step event) := by
  cases event with
  | compssStart =>
    constructor
    · exact le_rfl
    · simp [Master.step]
  | compssStop => exact ⟨h.since_le, h.registered⟩
  | call i =>
    have hstep : m.step (.call i) = if masterWorkingDirName ∈ m.session.globals then
        { m with
          session := i.run m.session
          marked := newMarkers i m.session (i.run m.session) ++ m.marked }
      else m := rfl
    rw [hstep]
    split
    · obtain ⟨calls, hcalls, hmarkers⟩ :=
        Step.adds (exec_decorated i.surroundings i.task i.values m.session)
      have hrun : (i.run m.session).calls = m.session.calls ++ calls := hcalls
      constructor
      · simp only [hrun, List.length_append]
        have hle := h.since_le
        omega
      · intro p hp
        simp only [Master.recent, hrun]
        rw [List.drop_append_of_le_length h.since_le]
        rcases List.mem_append.mp hp with hnew | hold
        · obtain ⟨hkey, element, helement, hmem⟩ := hmarkers p hnew
          exact ⟨i.task, hkey.symm, element, helement, List.mem_append_right _ hmem⟩
        · obtain ⟨task, hkey, element, helement, hmem⟩ := h.registered p hold
          exact ⟨task, hkey, element, helement, List.mem_append_left _ hmem⟩
    · exact h

/-- A call whose marker, if there is one, is of this session. -/
theorem MarkedKept.registeredSinceStart {m : Master} (h : MarkedKept m) {i : Invocation}
    (hmarker : MarkerFromHere m (.call i)) : RegisteredSinceStart m i := by
  intro t hsubmits
  obtain ⟨_, _, _, path, s', _, _, _, _, hregistered, hcalls⟩ := hsubmits.cases
  cases hregistered with
  | @known marker spelled known =>
    obtain ⟨task, hkey, element, helement, hmem⟩ := h.registered _ (hmarker marker spelled known)
    exact ⟨_, element, hcalls, helement.of_key hkey, hmem⟩
  | @new marker element spelled unknown built =>
    refine ⟨_, element, hcalls, registers_of_coreElement built, ?_⟩
    rw [recent_append h.since_le]
    simp

/-- In every run of starts, stops and calls in which no call finds a marker of an earlier
session or of another function and constraint set, every task is preceded, after the most
recent start, by the registration of its function with its constraints. -/
theorem registered_per_session {globals : List Text} {m : Master}
    (h : Reached Master.step MarkerFromHere (Master.launched globals) m) {i : Invocation}
    (hmarker : MarkerFromHere m (.call i)) : RegisteredSinceStart m i := by
  have hkept : MarkedKept m :=
    h.keeps (launched_markedKept globals) fun _ event hm _ => hm.step event
  exact hkept.registeredSinceStart hmarker

/-- `add(2, 2)`. -/
def addCall : Invocation := ⟨plainSurroundings, addTask, [([], two), ([], two)]⟩

/-- Two calls in the first session: the second finds the marker of the first. -/
theorem second_call_registered :
    RegisteredSinceStart (steps Master.step [.compssStart, .call addCall] (.launched [])) addCall ∧
      ∃ t, Submits plainSurroundings addTask addCall.values
        (steps Master.step [.compssStart, .call addCall] (.launched [])).session t := by
  have hmarker : registerMarker addCall.task.fName addCall.task.constraints =
      .ok "registered_add".toList := rfl
  have hfirst : MarkerFromHere (Master.step .compssStart (.launched [])) (.call addCall) := by
    intro marker hspelled hknown
    cases hmarker.symm.trans hspelled
    revert hknown
    decide
  have hsecond : MarkerFromHere
      (steps Master.step [.compssStart, .call addCall] (.launched [])) (.call addCall) := by
    intro marker hspelled _
    cases hmarker.symm.trans hspelled
    exact List.mem_cons_self
  have hreached : Reached Master.step MarkerFromHere (.launched [])
      (steps Master.step [.compssStart, .call addCall] (.launched [])) :=
    .next (SessionEvent.call addCall) (.next SessionEvent.compssStart .start trivial) hfirst
  exact ⟨registered_per_session hreached hsecond, _, [], rfl⟩

/-- A start, a call, a stop, and another start. -/
def restarted : Master :=
  steps Master.step [.compssStart, .call addCall, .compssStop, .compssStart] (.launched [])

/-- In the second session the task is submitted to a runtime that has no registration. -/
theorem restart_loses_registrations :
    ¬ ∀ (globals : List Text) (m : Master),
      Reached Master.step anyStep (.launched globals) m → ∀ i : Invocation,
        i.task.infoOnly = false → RegisteredSinceStart m i := by
  intro h
  have hreached : Reached Master.step anyStep (.launched []) restarted := Reached.steps .start _
  have hsubmits : Submits plainSurroundings addTask addCall.values restarted.session _ := ⟨[], rfl⟩
  obtain ⟨calls, element, hcalls, _, hmem⟩ := h [] restarted hreached addCall rfl _ hsubmits
  have hown : (addCall.run restarted.session).calls = restarted.session.calls ++ [.processTask _] :=
    rfl
  obtain ⟨rfl, _⟩ := List.append_inj' (hcalls.symm.trans hown) rfl
  have hnone : restarted.recent restarted.session.calls = [] := List.drop_length
  rw [hnone] at hmem
  cases hmem

end RCompss.Submission
