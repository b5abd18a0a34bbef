import RCompss.System.Calls
import RCompss.System.Sequential

/-! A program of calls, each of which may take the futures of earlier ones. What R finds in the
file of a future is what the calls give when they are made one after the other. -/
namespace RCompss.System
open RCompss.Library RCompss.Payload RCompss.Executor RCompss.Submission

section
variable {ρ : Type}

namespace Call

/-- What the function returns when the files of earlier results read as `σ`. -/
def value (c : Config ρ) (delivered : SEXP → ArgValue) (call : Call) (σ : Text → Option SEXP) :
    Option SEXP := do
  let values ← argumentsIn c.packages delivered call.surroundings call.argumentMethod 1 σ
    call.arguments
  c.functions call.line.message.moduleFile call.task.fName
    (((call.arguments.map Prod.fst).zip values).filter fun arg =>
      !rcompssIsReturnValuePlaceholderArgName arg.1)

/-- And what R reads of it on the master. -/
def result (c : Config ρ) (delivered : SEXP → ArgValue) (call : Call) (σ : Text → Option SEXP) :
    Option SEXP :=
  (call.value c delivered σ).bind (transported c.packages c.env call.output call.returnMethod)

/-- What the system gets to know of a call, the latest first. -/
def entries (c : Config ρ) (call : Call) : List Entry :=
  .task call.line :: (call.payloads.map fun p =>
    .written p.1 (transported c.packages c.env p.1 call.argumentMethod p.2)).reverse

/-- No UID is drawn again. -/
def Fresh (calls : List Call) (call : Call) : Prop :=
  ∀ earlier ∈ calls, ∀ i ≤ call.arguments.length, ∀ j ≤ earlier.arguments.length,
    call.surroundings.uid i ≠ earlier.surroundings.uid j

/-- The futures among the arguments are those of earlier calls. -/
def Known (calls : List Call) (call : Call) : Prop :=
  ∀ arg ∈ call.arguments, ∀ path, IsFutureOf call.surroundings arg.2 path →
    ∃ earlier ∈ calls, earlier.output = path

end Call

/-- The results of calls made one after the other, the latest first. -/
def results (c : Config ρ) (delivered : SEXP → ArgValue) : List Call → Text → Option SEXP
  | [] => fun _ => none
  | call :: calls => Function.update (results c delivered calls) call.output
      (call.result c delivered (results c delivered calls))

/-- The system, and the calls made so far, the latest first. -/
structure Program (ρ : Type) where
  system : State ρ
  calls : List Call

inductive ProgramEvent where
  | call (call : Call)
  | runtime (event : Event)

/-- What the runtime and its executors do of themselves. -/
def Event.OfRuntime : Event → Prop
  | .start .. | .scribble .. | .finish .. => True
  | .write .. | .submit .. => False

namespace Program

def start (files : Files) (executors : ℕ → Process (Node ρ)) : Program ρ :=
  ⟨.start files executors, []⟩

def step (c : Config ρ) : ProgramEvent → Program ρ → Program ρ
  | .call call, p =>
      { system := steps (State.step c) call.events p.system
        calls := call :: p.calls }
  | .runtime event, p => { p with system := State.step c event p.system }

def Allowed (c : Config ρ) (delivered : SEXP → ArgValue) (p : Program ρ) : ProgramEvent → Prop
  | .call call => call.Proper c delivered ∧ call.Fresh p.calls ∧ call.Known p.calls
  | .runtime event => event.OfRuntime ∧ State.Allowed c p.system event

end Program

variable {c : Config ρ} {delivered : SEXP → ArgValue} {call : Call} {calls : List Call}
  {σ τ : Text → Option SEXP} {files : Files} {executors : ℕ → Process (Node ρ)} {s : State ρ}
  {p : Program ρ}

/-- Nothing matters to the arguments but the files of their futures. -/
theorem argumentsIn_congr {d : Packages} {r : Surroundings} {method : Text} {i : ℕ}
    {arguments : Arguments}
    (h : ∀ arg ∈ arguments, ∀ path, IsFutureOf r arg.2 path → σ path = τ path) :
    argumentsIn d delivered r method i σ arguments =
      argumentsIn d delivered r method i τ arguments := by
  induction arguments generalizing i with
  | nil => rfl
  | cons arg arguments ih =>
    have hfirst : argumentIn d delivered r method i σ arg =
        argumentIn d delivered r method i τ arg := by
      unfold argumentIn
      simp only
      split
      · rfl
      split
      next hfuture =>
        cases hpath : r.outputfile arg.2 with
        | error e => rfl
        | ok path => simp only [h arg List.mem_cons_self path ⟨hfuture, hpath⟩]
      next => rfl
    unfold argumentsIn
    rw [hfirst, ih fun a ha => h a (List.mem_cons_of_mem _ ha)]

theorem Call.Proper.colon_output (h : call.Proper c delivered) : ':' ∉ call.output := by
  have hmethod := h.carried.method
  let m : AcceptedMethod := ⟨call.returnMethod, h.accepted _ hmethod⟩
  exact fun hcolon => h.colonFree.1 ((colon_mem_return m _ _).mp hcolon)

theorem Call.Proper.colon_processed (h : call.Proper c delivered)
    (hfutures : ∀ arg ∈ call.arguments, ∀ path, IsFutureOf call.surroundings arg.2 path →
      ':' ∉ path) {processed : List ProcessedValue}
    (hprocessed : processedValues call.surroundings call.argumentMethod 1 call.arguments =
      .ok processed) : ∀ path, .path path ∈ processed → ':' ∉ path := by
  intro path hpath
  obtain ⟨k, arg, harg, hvalue⟩ := mem_processedValues hprocessed _ hpath
  cases standsIn hvalue (h.noSymbol arg harg) with
  | payload written =>
    let m : AcceptedMethod := ⟨call.argumentMethod, h.accepted _ h.carried.argumentMethod⟩
    intro hcolon
    rcases (colon_mem_argument m _ _ _ _).mp hcolon with hdir | hname
    · exact h.colonFree.1 hdir
    · exact h.colonFree.2 arg harg hname
  | future names => exact hfutures arg harg path names

/-- The task of a proper call does on an executor what the call says. -/
theorem Call.Proper.value_line (h : call.Proper c delivered)
    (hfutures : ∀ arg ∈ call.arguments, ∀ path, IsFutureOf call.surroundings arg.2 path →
      ':' ∉ path)
    (hσ : ∀ p ∈ call.payloads, σ p.1 =
      transported c.packages c.env p.1 call.argumentMethod p.2) :
    call.line.value c.runtime.stod c.functions σ = call.value c delivered σ := by
  have hcarried := h.carried
  obtain ⟨processed, hprocessed, hrows⟩ := hcarried.processed
  have hcolon := h.colon_processed hfutures hprocessed
  obtain ⟨hnames, -, hreads⟩ := arguments_delivered (d := c.packages) hprocessed h.noSymbol
    hrows hcolon
  unfold LaidOut.value taskValue Call.value
  rw [hreads σ (h.env ▸ hσ), hcarried.func]
  refine congrArg _ (funext fun values => ?_)
  rw [← filter_named, hnames]

/-- It reads the payloads of the call and the files of its futures. -/
theorem Call.Proper.inputs_line (h : call.Proper c delivered)
    (hfutures : ∀ arg ∈ call.arguments, ∀ path, IsFutureOf call.surroundings arg.2 path →
      ':' ∉ path) : ∀ path ∈ call.line.inputs,
    (∃ arg ∈ call.arguments, IsFutureOf call.surroundings arg.2 path) ∨
      path ∈ call.payloads.map Prod.fst := by
  have hcarried := h.carried
  obtain ⟨processed, hprocessed, hrows⟩ := hcarried.processed
  have hcolon := h.colon_processed hfutures hprocessed
  exact (arguments_delivered (d := c.packages) hprocessed h.noSymbol hrows hcolon).2.1

/-- The paths of a call all end in its UIDs. -/
theorem Call.Proper.endsIn (h : call.Proper c delivered) :
    ∀ path ∈ (call.entries c).map Entry.path, ∃ i ≤ call.arguments.length,
      EndsIn (call.surroundings.uid i) path := by
  intro path hpath
  rcases List.mem_cons.mp hpath with rfl | hpath
  · refine ⟨0, Nat.zero_le _, ?_⟩
    rw [Entry.path, h.carried.output]
    exact returnValueFilename_endsIn _ _ _
  · rw [List.map_reverse, List.mem_reverse, List.map_map] at hpath
    obtain ⟨p, hp, rfl⟩ := List.mem_map.mp hpath
    obtain ⟨k, arg, hk, -, rfl⟩ := mem_payloads hp
    have hlength := (List.getElem?_eq_some_iff.mp hk).1
    exact ⟨1 + k, by omega, argumentPath_endsIn _ _ _ _⟩

theorem Call.Fresh.not_mem (hfresh : call.Fresh calls) (h : call.Proper c delivered)
    (hproper : ∀ earlier ∈ calls, earlier.Proper c delivered) :
    ∀ path ∈ (call.entries c).map Entry.path,
      path ∉ (calls.flatMap (Call.entries c)).map Entry.path := by
  intro path hpath hmem
  obtain ⟨e, he, rfl⟩ := List.mem_map.mp hmem
  obtain ⟨earlier, hearlier, he⟩ := List.mem_flatMap.mp he
  obtain ⟨i, hi, hends⟩ := h.endsIn _ hpath
  obtain ⟨j, hj, hends'⟩ := (hproper earlier hearlier).endsIn _ (List.mem_map_of_mem he)
  exact hfresh earlier hearlier i hi j hj (hends.unique hends')

/-- Payloads written one after the other, to new files. -/
theorem steps_writes {method : Text} (ps : List (Text × SEXP))
    (hwrite : ∀ p ∈ ps, ∀ old, ∃ content,
      exec (rcompssSerialize c.packages c.env p.2 p.1 method) old = (.ok (), content))
    (hover : ∀ path, Overwrites c.packages c.env path method)
    (h : IsReached c files executors s) (hnodup : (ps.map Prod.fst).Nodup)
    (hfresh : ∀ p ∈ ps, p.1 ∉ s.entries.map Entry.path) :
    IsReached c files executors
        (steps (State.step c) (ps.map fun p => .write p.2 p.1 method) s) ∧
      (steps (State.step c) (ps.map fun p => .write p.2 p.1 method) s).entries =
        (ps.map fun p => Entry.written p.1
          (transported c.packages c.env p.1 method p.2)).reverse ++ s.entries := by
  induction ps generalizing s with
  | nil => exact ⟨h, rfl⟩
  | cons p ps ih =>
    obtain ⟨hp, hnodup⟩ := List.nodup_cons.mp hnodup
    obtain ⟨content, hrun⟩ := hwrite p List.mem_cons_self (s.files p.1)
    have hentries : (State.step c (.write p.2 p.1 method) s).entries =
        .written p.1 (transported c.packages c.env p.1 method p.2) :: s.entries := by
      simp only [State.step, hrun, hover p.1 _ _ _ hrun]
    have hallowed : State.Allowed c s (.write p.2 p.1 method) := hfresh p List.mem_cons_self
    have hreached : IsReached c files executors (State.step c (.write p.2 p.1 method) s) :=
      .next _ h hallowed
    obtain ⟨hall, hlater⟩ := ih (fun q hq => hwrite q (List.mem_cons_of_mem _ hq)) hreached hnodup
      fun q hq hmem => by
        rw [hentries] at hmem
        rcases List.mem_cons.mp hmem with hsame | hmem
        · have hpath : q.1 = p.1 := hsame
          exact hp (hpath ▸ List.mem_map_of_mem hq)
        · exact hfresh q (List.mem_cons_of_mem _ hq) hmem
    refine ⟨hall, hlater.trans ?_⟩
    rw [hentries, List.map_cons, List.reverse_cons, List.append_assoc]
    rfl

theorem files_steps_writes {method : Text} (ps : List (Text × SEXP)) (s : State ρ) :
    (steps (State.step c) (ps.map fun p => .write p.2 p.1 method) s).files =
      writeAll c.packages c.env method s.files ps := by
  induction ps generalizing s with
  | nil => rfl
  | cons p ps ih => exact ih _

/-- A call leaves the files that the loop over its arguments leaves on the disk. -/
theorem Call.Proper.files_events (h : call.Proper c delivered) {values : List ProcessedValue}
    {left : Files} (hloop : exec (processedValuesOn c.packages call.surroundings
      call.argumentMethod 1 call.arguments) s.files = (.ok values, left)) :
    (steps (State.step c) call.events s).files = left := by
  obtain ⟨-, hleft⟩ := exec_processedValuesOn h.writes hloop
  have hsubmit : (steps (State.step c) call.events s).files = (steps (State.step c)
      (call.payloads.map fun p => .write p.2 p.1 call.argumentMethod) s).files := by
    unfold steps Call.events
    rw [List.foldl_append]
    rfl
  rw [hsubmit, files_steps_writes, hleft, h.env]
  rfl

theorem Call.Known.colon (hknown : call.Known calls)
    (hproper : ∀ earlier ∈ calls, earlier.Proper c delivered) : ∀ arg ∈ call.arguments,
    ∀ path, IsFutureOf call.surroundings arg.2 path → ':' ∉ path := by
  intro arg harg path hfuture
  obtain ⟨earlier, hearlier, rfl⟩ := hknown arg harg path hfuture
  exact (hproper earlier hearlier).colon_output

theorem Call.payload_paths (c : Config ρ) (call : Call) :
    ((call.payloads.map fun p => Entry.written p.1
      (transported c.packages c.env p.1 call.argumentMethod p.2)).reverse).map Entry.path =
        (call.payloads.map Prod.fst).reverse := by
  rw [List.map_reverse, List.map_map]
  rfl

theorem Call.Proper.output_mem (h : call.Proper c delivered) :
    call.output ∈ (call.entries c).map Entry.path := by
  rw [← h.carried.output]
  exact List.mem_cons_self

/-- A proper call brings the system a call further. -/
theorem Call.Proper.steps_events (h : call.Proper c delivered)
    (hproper : ∀ earlier ∈ calls, earlier.Proper c delivered) (hfresh : call.Fresh calls)
    (hknown : call.Known calls) (hreached : IsReached c files executors s)
    (hentries : s.entries = calls.flatMap (Call.entries c)) :
    IsReached c files executors (steps (State.step c) call.events s) ∧
      (steps (State.step c) call.events s).entries = call.entries c ++ s.entries := by
  have hcarried := h.carried
  obtain ⟨processed, hprocessed, -⟩ := hcarried.processed
  obtain ⟨hreturn, hnodup⟩ := List.nodup_cons.mp (payload_paths_distinct call.surroundings
    call.argumentMethod call.returnMethod call.arguments)
  have hnew := hfresh.not_mem h hproper
  rw [← hentries] at hnew
  have hwrite : ∀ p ∈ call.payloads, ∀ old, ∃ content, exec (rcompssSerialize c.packages c.env
      p.2 p.1 call.argumentMethod) old = (.ok (), content) := by
    intro p hp old
    rw [← h.env]
    exact (h.writes _ _ _ old).mp (payloads_written hprocessed p hp)
  obtain ⟨hwritten, hlater⟩ := steps_writes call.payloads hwrite
    (h.overwrites _ hcarried.argumentMethod) hreached hnodup fun p hp => by
      refine hnew p.1 (List.mem_cons_of_mem _ ?_)
      rw [call.payload_paths, List.mem_reverse]
      exact List.mem_map_of_mem hp
  have hsteps : steps (State.step c) call.events s = State.step c (.submit call.line)
      (steps (State.step c) (call.payloads.map fun p => .write p.2 p.1 call.argumentMethod) s) := by
    unfold steps Call.events
    rw [List.foldl_append]
    rfl
  rw [hsteps]
  refine ⟨.next _ hwritten ?_, ?_⟩
  · rw [State.Allowed, hlater, List.map_append, call.payload_paths]
    refine ⟨fun hmem => ?_, fun path hpath => ?_, ?_⟩
    · rw [hcarried.output] at hmem
      rcases List.mem_append.mp hmem with hmem | hmem
      · exact hreturn (List.mem_reverse.mp hmem)
      · exact hnew _ h.output_mem hmem
    · rcases h.inputs_line (hknown.colon hproper) path hpath with ⟨arg, harg, hfuture⟩ | hmem
      · obtain ⟨earlier, hearlier, rfl⟩ := hknown arg harg path hfuture
        obtain ⟨e, he, hpath⟩ := List.mem_map.mp (hproper earlier hearlier).output_mem
        refine List.mem_append_right _ (hpath ▸ List.mem_map_of_mem ?_)
        rw [hentries]
        exact List.mem_flatMap.mpr ⟨earlier, hearlier, he⟩
      · exact List.mem_append_left _ (List.mem_reverse.mpr hmem)
    · rw [hcarried.resultMethod]
      exact h.overwrites _ hcarried.method _
  · exact congrArg (.task call.line :: ·) hlater

/-- What is submitted later changes nothing in the files there are. -/
theorem sequential_entries {es es' : List Entry}
    (honce : WriteOnce ((es' ++ es).map (Entry.dataTask c))) {path : Text}
    (hpath : path ∈ es.map Entry.path) :
    sequential ((es' ++ es).map (Entry.dataTask c)) path =
      sequential (es.map (Entry.dataTask c)) path := by
  rw [List.map_append] at honce ⊢
  apply honce.sequential_append
  unfold targets
  rw [List.map_map, List.map_congr_left fun e _ => e.output_dataTask (c := c)]
  exact hpath

/-- With the earlier results in their files a call's own file gets what the call gives. -/
theorem Call.Proper.sequential_output (h : call.Proper c delivered)
    (hproper : ∀ earlier ∈ calls, earlier.Proper c delivered) (hknown : call.Known calls)
    {es : List Entry} (honce : WriteOnce ((call.entries c ++ es).map (Entry.dataTask c)))
    (hes : ∀ earlier ∈ calls, earlier.output ∈ es.map Entry.path)
    (hresults : ∀ earlier ∈ calls, sequential (es.map (Entry.dataTask c)) earlier.output =
      results c delivered calls earlier.output) :
    sequential ((call.entries c ++ es).map (Entry.dataTask c)) call.output =
      call.result c delivered (results c delivered calls) := by
  have hcarried := h.carried
  let σ := sequential ((call.entries c ++ es).map (Entry.dataTask c))
  have htask : call.line.dataTask c ∈ (call.entries c ++ es).map (Entry.dataTask c) :=
    List.mem_map_of_mem (List.mem_append_left es (List.mem_cons_self (a := Entry.task call.line)))
  have hself : σ call.line.output = call.line.eval c σ := honce.sequential_output htask
  have hpayloads : ∀ p ∈ call.payloads, σ p.1 =
      transported c.packages c.env p.1 call.argumentMethod p.2 := by
    intro p hp
    have hmem : Entry.written p.1 (transported c.packages c.env p.1 call.argumentMethod p.2) ∈
        call.entries c ++ es := by
      refine List.mem_append_left _ (List.mem_cons_of_mem _ (List.mem_reverse.mpr ?_))
      exact List.mem_map_of_mem (f := fun p => Entry.written p.1
        (transported c.packages c.env p.1 call.argumentMethod p.2)) hp
    exact honce.sequential_output (List.mem_map_of_mem (f := Entry.dataTask c) hmem)
  have hfutures : ∀ arg ∈ call.arguments, ∀ path, IsFutureOf call.surroundings arg.2 path →
      σ path = results c delivered calls path := by
    intro arg harg path hfuture
    obtain ⟨earlier, hearlier, rfl⟩ := hknown arg harg path hfuture
    rw [← hresults earlier hearlier]
    exact sequential_entries honce (hes earlier hearlier)
  rw [hcarried.output] at hself
  refine hself.trans ?_
  unfold TaskLine.eval Call.result
  rw [h.value_line (hknown.colon hproper) hpayloads, hcarried.output, hcarried.resultMethod]
  unfold Call.value
  rw [argumentsIn_congr hfutures]

/-- What every step of a program keeps. -/
structure Program.Kept (c : Config ρ) (delivered : SEXP → ArgValue) (files : Files)
    (executors : ℕ → Process (Node ρ)) (p : Program ρ) : Prop where
  reached : IsReached c files executors p.system
  entries : p.system.entries = p.calls.flatMap (Call.entries c)
  proper : ∀ call ∈ p.calls, call.Proper c delivered
  held : ∀ call ∈ p.calls, sequential (p.system.entries.map (Entry.dataTask c)) call.output =
    results c delivered p.calls call.output

theorem kept_start : (Program.start files executors).Kept c delivered files executors where
  reached := .start
  entries := rfl
  proper _ h := by cases h
  held _ h := by cases h

/-- The runtime submits nothing. -/
theorem entries_ofRuntime {event : Event} (h : event.OfRuntime) :
    (State.step c event s).entries = s.entries := by
  cases event with
  | write => cases h
  | submit => cases h
  | start => rfl
  | scribble => rfl
  | finish t view sched =>
    simp only [State.step]
    split
    · rfl
    · rfl

theorem Program.Kept.step (h : p.Kept c delivered files executors) {event : ProgramEvent}
    (hallowed : Program.Allowed c delivered p event) :
    (Program.step c event p).Kept c delivered files executors := by
  cases event with
  | runtime event =>
    obtain ⟨hruntime, hallowed⟩ := hallowed
    have hentries := entries_ofRuntime (c := c) (s := p.system) hruntime
    refine ⟨.next event h.reached hallowed, hentries.trans h.entries, h.proper,
      fun call hcall => ?_⟩
    have hkept := h.held call hcall
    rw [← hentries] at hkept
    exact hkept
  | call call =>
    obtain ⟨hproper, hfresh, hknown⟩ := hallowed
    obtain ⟨hreached, hentries⟩ :=
      hproper.steps_events h.proper hfresh hknown h.reached h.entries
    have hnew : (Program.step c (.call call) p).system.entries =
      call.entries c ++ p.system.entries := hentries
    have honce := (Dataflow.sound_of_reached (reached_dataflow hreached)).writeOnce
    rw [State.dataflow, hentries] at honce
    have hknownPaths : ∀ earlier ∈ p.calls, earlier.output ∈ p.system.entries.map Entry.path := by
      intro earlier hearlier
      obtain ⟨e, he, hpath⟩ := List.mem_map.mp (h.proper earlier hearlier).output_mem
      rw [h.entries, ← hpath]
      exact List.mem_map_of_mem (List.mem_flatMap.mpr ⟨earlier, hearlier, he⟩)
    refine ⟨hreached, ?_, List.forall_mem_cons.mpr ⟨hproper, h.proper⟩,
      List.forall_mem_cons.mpr ⟨?_, fun earlier hearlier => ?_⟩⟩
    · rw [hnew, h.entries]
      rfl
    · have hself : results c delivered (call :: p.calls) call.output =
        call.result c delivered (results c delivered p.calls) := Function.update_self _ _ _
      rw [hnew, hproper.sequential_output h.proper hknown honce hknownPaths h.held]
      exact hself.symm
    · have hne : earlier.output ≠ call.output := by
        intro hsame
        apply hfresh.not_mem hproper h.proper _ hproper.output_mem
        rw [← h.entries, ← hsame]
        exact hknownPaths earlier hearlier
      have hlater : results c delivered (call :: p.calls) earlier.output =
        results c delivered p.calls earlier.output := Function.update_of_ne hne _ _
      rw [hnew, sequential_entries honce (hknownPaths earlier hearlier), h.held earlier hearlier]
      exact hlater.symm

/-- However the runtime schedules its calls, and whatever fails and is tried again, the file of a
future that is done reads as the result of its call when the calls are made one after the
other. -/
theorem futures_hold_results (c : Config ρ) (delivered : SEXP → ArgValue) (files : Files)
    (executors : ℕ → Process (Node ρ)) (p : Program ρ)
    (h : Reached (Program.step c) (Program.Allowed c delivered) (.start files executors) p) :
    ∀ call ∈ p.calls, call.output ∈ p.system.done →
      readable c.packages p.system.files call.output = results c delivered p.calls call.output := by
  have hkept : p.Kept c delivered files executors :=
    h.keeps kept_start fun _ _ hp hallowed => hp.step hallowed
  have hsound := Dataflow.sound_of_reached (reached_dataflow hkept.reached)
  exact fun call hcall hdone => (hsound.settled _ hdone).trans (hkept.held call hcall)

end

end RCompss.System
