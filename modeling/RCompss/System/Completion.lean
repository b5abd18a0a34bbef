import RCompss.System.Awaited
import RCompss.System.Progress

/-! Programs of calls come to their end: the results of all calls solve their equations at once,
and the runtime can bring every future of them about. -/
namespace RCompss.System
open RCompss.Library RCompss.Payload RCompss.Executor RCompss.Submission

section
variable {ρ : Type} {c : Config ρ} {delivered : SEXP → ArgValue} {call : Call}
  {calls : List Call} {σ τ : Text → Option SEXP} {files : Files}
  {executors : ℕ → Process (Node ρ)} {s s' : State ρ} {p : Program ρ}

/-- Calls made one after the other, the latest first. -/
inductive MadeInTurn (c : Config ρ) (delivered : SEXP → ArgValue) : List Call → Prop
  | nil : MadeInTurn c delivered []
  | cons {call : Call} {calls : List Call} (earlier : MadeInTurn c delivered calls)
      (proper : call.Proper c delivered) (fresh : call.Fresh calls) (known : call.Known calls) :
      MadeInTurn c delivered (call :: calls)

theorem MadeInTurn.proper (h : MadeInTurn c delivered calls) :
    ∀ call ∈ calls, call.Proper c delivered := by
  induction h with
  | nil => simp
  | cons _ proper _ _ ih => exact List.forall_mem_cons.mpr ⟨proper, ih⟩

theorem MadeInTurn.known (h : MadeInTurn c delivered calls) :
    ∀ call ∈ calls, call.Known calls := by
  induction h with
  | nil => simp
  | @cons call calls _ _ _ known ih =>
    refine List.forall_mem_cons.mpr ⟨fun arg harg path hfuture => ?_,
      fun earlier hearlier arg harg path hfuture => ?_⟩
    · obtain ⟨earlier, hearlier, hpath⟩ := known arg harg path hfuture
      exact ⟨earlier, List.mem_cons_of_mem _ hearlier, hpath⟩
    · obtain ⟨first, hfirst, hpath⟩ := ih earlier hearlier arg harg path hfuture
      exact ⟨first, List.mem_cons_of_mem _ hfirst, hpath⟩

/-- A new call gets a file of its own. -/
theorem Call.Fresh.output_ne (hfresh : call.Fresh calls) (h : call.Proper c delivered)
    (hproper : ∀ earlier ∈ calls, earlier.Proper c delivered) :
    ∀ earlier ∈ calls, earlier.output ≠ call.output := by
  intro earlier hearlier hsame
  obtain ⟨e, he, hpath⟩ := List.mem_map.mp (hproper earlier hearlier).output_mem
  apply hfresh.not_mem h hproper _ h.output_mem
  rw [← hsame, ← hpath]
  exact List.mem_map_of_mem (List.mem_flatMap.mpr ⟨earlier, hearlier, he⟩)

theorem Call.result_congr
    (h : ∀ arg ∈ call.arguments, ∀ path, IsFutureOf call.surroundings arg.2 path →
      σ path = τ path) : call.result c delivered σ = call.result c delivered τ := by
  unfold Call.result Call.value
  rw [argumentsIn_congr h]

/-- The results solve the equations of all calls at once. -/
theorem MadeInTurn.results_output (h : MadeInTurn c delivered calls) :
    ∀ call ∈ calls, results c delivered calls call.output =
      call.result c delivered (results c delivered calls) := by
  induction h with
  | nil => simp
  | @cons call calls earlier proper fresh known ih =>
    have hne := fresh.output_ne proper earlier.proper
    have hkept (path : Text) (hpath : ∃ e ∈ calls, e.output = path) :
        results c delivered (call :: calls) path = results c delivered calls path := by
      obtain ⟨e, he, rfl⟩ := hpath
      exact Function.update_of_ne (hne e he) _ _
    refine List.forall_mem_cons.mpr ⟨?_, fun e he => ?_⟩
    · have hself : results c delivered (call :: calls) call.output =
        call.result c delivered (results c delivered calls) := Function.update_self _ _ _
      rw [hself]
      exact Call.result_congr fun arg harg path hfuture =>
        (hkept path (known arg harg path hfuture)).symm
    · rw [hkept e.output ⟨e, he, rfl⟩, ih e he]
      exact Call.result_congr fun arg harg path hfuture =>
        (hkept path (earlier.known e he arg harg path hfuture)).symm

theorem madeInTurn {files : Files} {executors : ℕ → Process (Node ρ)} {p : Program ρ}
    (h : Reached (Program.step c) (Program.Allowed c delivered) (.start files executors) p) :
    MadeInTurn c delivered p.calls := by
  refine h.keeps (I := fun p => MadeInTurn c delivered p.calls) .nil fun p event hp hallowed => ?_
  cases event with
  | runtime event => exact hp
  | call call => exact .cons hp hallowed.1 hallowed.2.1 hallowed.2.2

/-- Without a new entry there were steps of the runtime only. -/
theorem reached_ofRuntime (h : Reached (State.step c) (State.Allowed c) s s') :
    s.entries.length ≤ s'.entries.length ∧ (s'.entries.length = s.entries.length →
      Reached (State.step c) (fun s event => event.OfRuntime ∧ State.Allowed c s event) s s') := by
  induction h with
  | start => exact ⟨le_rfl, fun _ => .start⟩
  | @next s₁ event _ hallowed ih =>
    obtain ⟨hle, hsame⟩ := ih
    by_cases hruntime : event.OfRuntime
    · have hentries := entries_ofRuntime (c := c) (s := s₁) hruntime
      rw [hentries]
      exact ⟨hle, fun hlength => .next event (hsame hlength) ⟨hruntime, hallowed⟩⟩
    · have hlonger : (State.step c event s₁).entries.length = s₁.entries.length + 1 := by
        cases event with
        | write | submit => rfl
        | start | scribble | finish => exact absurd trivial hruntime
      refine ⟨by omega, fun hlength => ?_⟩
      omega

/-- A run of the runtime, in the program. -/
theorem Program.reached_runtime
    (h : Reached (State.step c) (fun s event => event.OfRuntime ∧ State.Allowed c s event)
      p.system s') :
    Reached (Program.step c) (Program.Allowed c delivered) p { p with system := s' } := by
  induction h with
  | start => exact .start
  | @next s event _ hallowed ih =>
    have hallowed' : Program.Allowed c delivered ⟨s, p.calls⟩ (.runtime event) := hallowed
    exact .next (.runtime event) ih hallowed'

/-- The tasks of a program are those of its calls. -/
theorem Program.Kept.mem_calls (h : p.Kept c delivered files executors) {t : TaskLine}
    (ht : .task t ∈ p.system.entries) : ∃ call ∈ p.calls, call.line = t := by
  rw [h.entries] at ht
  obtain ⟨call, hcall, hmem⟩ := List.mem_flatMap.mp ht
  refine ⟨call, hcall, ?_⟩
  rcases List.mem_cons.mp hmem with heq | hmem
  · cases heq
    rfl
  · obtain ⟨q, -, hq⟩ := List.mem_map.mp (List.mem_reverse.mp hmem)
    cases hq

/-- On the files of a program the task of a call does what the call says of the results. -/
theorem Program.Kept.value_line (h : p.Kept c delivered files executors)
    (hmade : MadeInTurn c delivered p.calls) (hcall : call ∈ p.calls)
    (hinputs : ∀ path ∈ call.line.inputs, σ path = sequential (program c p.system) path) :
    call.line.value c.runtime.stod c.functions σ =
      call.value c delivered (results c delivered p.calls) := by
  have hproper := h.proper call hcall
  have hknown := hmade.known call hcall
  have hsame : call.line.value c.runtime.stod c.functions σ =
      call.line.value c.runtime.stod c.functions (sequential (program c p.system)) :=
    taskValue_congr hinputs
  have hpayloads : ∀ q ∈ call.payloads, sequential (program c p.system) q.1 =
      transported c.packages c.env q.1 call.argumentMethod q.2 := by
    intro q hq
    have honce := (Dataflow.sound_of_reached (reached_dataflow h.reached)).writeOnce
    have hentry : Entry.written q.1 (transported c.packages c.env q.1 call.argumentMethod q.2) ∈
        p.system.entries := by
      rw [h.entries]
      refine List.mem_flatMap.mpr ⟨call, hcall, List.mem_cons_of_mem _ ?_⟩
      exact List.mem_reverse.mpr (List.mem_map_of_mem (f := fun q => Entry.written q.1
        (transported c.packages c.env q.1 call.argumentMethod q.2)) hq)
    exact honce.sequential_output (List.mem_map_of_mem (f := Entry.dataTask c) hentry)
  rw [hsame, hproper.value_line (hknown.colon h.proper) hpayloads]
  unfold Call.value
  rw [argumentsIn_congr fun arg harg path hfuture => ?_]
  obtain ⟨earlier, hearlier, rfl⟩ := hknown arg harg path hfuture
  exact h.held earlier hearlier

theorem program_kept
    (h : Reached (Program.step c) (Program.Allowed c delivered) (.start files executors) p) :
    p.Kept c delivered files executors :=
  h.keeps kept_start fun _ _ hp hallowed => hp.step hallowed

/-- When the tasks of a program can run, the runtime alone can bring all its futures about. -/
theorem program_completes
    (h : Reached (Program.step c) (Program.Allowed c delivered) (.start files executors) p)
    (hrun : ∀ t, .task t ∈ p.system.entries → Runnable c (sequential (program c p.system)) t)
    (executor : ℕ) : ∃ s, Reached (Program.step c) (Program.Allowed c delivered) p
        { p with system := s } ∧
      ∀ call ∈ p.calls, call.output ∈ s.done ∧
        readable c.packages s.files call.output = results c delivered p.calls call.output := by
  have hkept := program_kept h
  obtain ⟨s, hfurther, -, hdone⟩ :=
    entries_can_be_done hkept.reached hrun executor p.system.entries [] rfl
  have hruntime := (reached_ofRuntime hfurther.reached).2 (by rw [hfurther.entries])
  have hreached : Reached (Program.step c) (Program.Allowed c delivered) p { p with system := s } :=
    Program.reached_runtime hruntime
  refine ⟨s, hreached, fun call hcall => ?_⟩
  have hmem : call.output ∈ s.done := by
    obtain ⟨e, he, hpath⟩ := List.mem_map.mp (hkept.proper call hcall).output_mem
    rw [← hpath]
    apply hdone e
    rw [hkept.entries]
    exact List.mem_flatMap.mpr ⟨call, hcall, he⟩
  exact ⟨hmem, futures_hold_results c delivered files executors _ (h.trans hreached) call hcall
    hmem⟩

end

section
variable {packages : Packages} {env : Option Text} {functions : Functions}
  {stod : Text → Option (BitVec 64)} {delivered : SEXP → ArgValue} {files : Files}
  {executors : ℕ → Process (Node Text)} {p : Program Text}

/-- A call returns something that can be written. -/
def Returns (packages : Packages) (env : Option Text) (functions : Functions)
    (stod : Text → Option (BitVec 64)) (delivered : SEXP → ArgValue) (calls : List Call)
    (call : Call) : Prop :=
  ∃ x, call.value (.ofFunctions packages env functions stod) delivered
      (results (.ofFunctions packages env functions stod) delivered calls) = some x ∧
    ∀ old, ∃ content, exec (rcompssSerialize packages env x call.output call.returnMethod) old =
      (.ok (), content)

theorem runnable_of_returns
    (h : Reached (Program.step (.ofFunctions packages env functions stod))
      (Program.Allowed (.ofFunctions packages env functions stod) delivered)
      (.start files executors) p)
    (hreturns : ∀ call ∈ p.calls, Returns packages env functions stod delivered p.calls call) :
    ∀ t, .task t ∈ p.system.entries →
      Runnable (.ofFunctions packages env functions stod)
        (sequential (program (.ofFunctions packages env functions stod) p.system)) t := by
  have hkept := program_kept h
  intro t ht n a hinputs
  obtain ⟨call, hcall, rfl⟩ := hkept.mem_calls ht
  obtain ⟨x, hvalue, hwrite⟩ := hreturns call hcall
  have hcarried := (hkept.proper call hcall).carried
  have hline := (hkept.value_line (madeInTurn h) hcall hinputs).trans hvalue
  obtain ⟨content, hwritten⟩ := hwrite (n.files call.output)
  rw [← hcarried.output, ← hcarried.resultMethod] at hwritten
  exact payloadRuntime_succeeds call.line.toLaidOut a n hline hwritten

end

/-- From every state that a program of calls can be in, whatever failed and is underway: when the
functions return on the results of the calls before, and their results can be written, the runtime
alone can go on until every future has its result, with no more than one executor. -/
theorem all_futures_can_be_had (packages : Packages) (env : Option Text) (functions : Functions)
    (stod : Text → Option (BitVec 64)) (delivered : SEXP → ArgValue) (files : Files)
    (executors : ℕ → Process (Node Text)) (p : Program Text)
    (h : Reached (Program.step (.ofFunctions packages env functions stod))
      (Program.Allowed (.ofFunctions packages env functions stod) delivered)
      (.start files executors) p)
    (hreturns : ∀ call ∈ p.calls, Returns packages env functions stod delivered p.calls call)
    (executor : ℕ) :
    ∃ s, Reached (Program.step (.ofFunctions packages env functions stod))
        (Program.Allowed (.ofFunctions packages env functions stod) delivered) p
        { p with system := s } ∧
      ∀ call ∈ p.calls, call.output ∈ s.done ∧ readable packages s.files call.output =
        results (.ofFunctions packages env functions stod) delivered p.calls call.output :=
  program_completes h (runnable_of_returns h hreturns) executor

/-- After the call `pair(1:2)` the file of its future can be had, and reads as `TRUE`. -/
theorem pair_future_can_be_had : ∃ s : State Text, resultFile ∈ s.done ∧
    readable plainPackages s.files resultFile = some trueValue.value := by
  obtain ⟨s, -, hall⟩ := all_futures_can_be_had plainPackages none pair (fun _ => none)
    (fun _ => .null) (fun _ => none) (fun _ => freshExecutor) pairMade pairMade_reached
    (fun call hcall => by
      cases List.mem_singleton.mp hcall
      refine ⟨trueValue.value, pairCall_value pair _, fun old => ?_⟩
      obtain ⟨content, hrun, -⟩ := true_transported old
      exact ⟨content, hrun⟩) 0
  obtain ⟨hdone, hread⟩ := hall pairCall List.mem_cons_self
  refine ⟨s, hdone, hread.trans ?_⟩
  exact (Function.update_self _ _ _).trans (pairCall_result _)

end RCompss.System
