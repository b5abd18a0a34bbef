import RCompss.System.Sequential

/-! The dependencies never block the runtime: whatever was started, all tasks can be done. -/
namespace RCompss.System
open RCompss.Library RCompss.Payload RCompss.Executor

section
variable {ρ : Type} {c : Config ρ} {files : Files} {executors : ℕ → Process (Node ρ)}
  {s : State ρ}

/-- On files whose inputs read as `σ`, every step of the task succeeds. -/
def Runnable (c : Config ρ) (σ : Text → Option SEXP) (t : TaskLine) : Prop :=
  ∀ (n : Node ρ) (a : Affinity), (∀ path ∈ t.inputs, readable c.packages n.files path = σ path) →
    ∃ path n', Succeeds c.runtime t.message a n path n'

/-- What is underway has seen the files as they are, and its inputs are done. -/
theorem seen_current (h : IsReached c files executors s) :
    ∀ path u, s.underway path = some u → s.files ∈ u.seen := by
  apply h.keeps
  · intro path u hu
    cases hu
  · have hput : ∀ (s : State ρ) (path : Text) (content : Option Bytes) (m : Text) (u : Underway),
        (s.put path content).underway m = some u → (s.put path content).files ∈ u.seen := by
      intro s path content m u hu
      obtain ⟨before, -, rfl⟩ := Option.map_eq_some_iff.mp hu
      exact List.mem_cons_self
    intro s event ih hallowed
    cases event with
    | write object path method => exact hput s path _
    | submit t => exact ih
    | start t executor =>
      intro m u hu
      by_cases hm : m = t.output
      · simp only [State.step, hm, Function.update_self, Option.some.injEq] at hu
        rw [← hu]
        exact List.mem_singleton.mpr rfl
      · simp only [State.step, Function.update_of_ne hm] at hu
        exact ih m u hu
    | scribble path left => exact hput s path left
    | finish t view sched =>
      obtain ⟨-, v, hv, -⟩ := hallowed
      intro m u hu
      simp only [State.step, hv] at hu ⊢
      by_cases hm : m = t.output
      · rw [hm, Function.update_self] at hu
        cases hu
      · rw [Function.update_of_ne hm] at hu
        exact hput s t.output _ m u hu

/-- The program of a state over what its files read as. -/
abbrev program (c : Config ρ) (s : State ρ) : List (DataTask Text SEXP) :=
  s.entries.map (Entry.dataTask c)

/-- A later state of the same program, in which nothing is undone and nothing new underway. -/
structure Further (c : Config ρ) (s s' : State ρ) : Prop where
  reached : Reached (State.step c) (State.Allowed c) s s'
  entries : s'.entries = s.entries
  done : s.done ⊆ s'.done
  idle : ∀ path, s.underway path = none → s'.underway path = none

theorem Further.refl (s : State ρ) : Further c s s := ⟨.start, rfl, fun _ hp => hp, fun _ hp => hp⟩

theorem Further.trans {s₁ s₂ s₃ : State ρ} (h : Further c s₁ s₂) (h' : Further c s₂ s₃) :
    Further c s₁ s₃ where
  reached := h.reached.trans h'.reached
  entries := h'.entries.trans h.entries
  done := fun _ hp => h'.done (h.done hp)
  idle path hp := h'.idle path (h.idle path hp)

theorem Further.isReached {s' : State ρ} (h : Further c s s') (hs : IsReached c files executors s) :
    IsReached c files executors s' := Reached.trans hs h.reached

/-- Whatever is underway can be brought to its end. -/
theorem finish_further (h : IsReached c files executors s) {t : TaskLine}
    (ht : .task t ∈ s.entries) {u : Underway} (hu : s.underway t.output = some u)
    (hrun : Runnable c (sequential (program c s)) t) :
    ∃ s', Further c s s' ∧ t.output ∈ s'.done ∧ s'.underway t.output = none := by
  have hsound := Dataflow.sound_of_reached (reached_dataflow h)
  have hrunning : (s.dataflow c).running t.output = some (u.seen.map (readable c.packages)) := by
    simp only [State.dataflow, hu, Option.map_some]
  have hready : ∀ path ∈ t.inputs, path ∈ s.done :=
    hsound.ready (t.dataTask c) (List.mem_map_of_mem (f := Entry.dataTask c) ht) _ hrunning
  obtain ⟨path, n', hsucceeds⟩ := hrun { (s.executors u.executor).session with files := s.files }
    (boundAffinity some t.message (s.executors u.executor).affinity) fun path hpath =>
      hsound.settled path (hready path hpath)
  have hok := succeeded_of_succeeds hsucceeds
  have hallowed : State.Allowed c s (.finish t s.files some) :=
    ⟨ht, u, hu, fun _ _ => ⟨s.files, seen_current h _ u hu, rfl⟩⟩
  let s' := State.step c (.finish t s.files some) s
  have hentries : s'.entries = s.entries := by
    simp only [s', State.step, hu]
    rfl
  have hdone : s'.done = insert t.output s.done := by
    simp only [s', State.step, hu, if_pos hok]
  have hidle : ∀ m, s'.underway m = if m = t.output then none else
      (s.underway m).map fun v => { v with seen := s'.files :: v.seen } := by
    intro m
    simp only [s', State.step, hu, Function.update_apply]
    rfl
  refine ⟨s', ⟨.next _ .start hallowed, hentries, ?_, fun m hm => ?_⟩, ?_, ?_⟩
  · rw [hdone]
    exact Set.subset_insert _ _
  · rw [hidle, hm]
    exact ite_self none
  · rw [hdone]
    exact Set.mem_insert _ _
  · rw [hidle, if_pos rfl]

/-- Only tasks are underway. -/
theorem underway_task (h : IsReached c files executors s) :
    ∀ path u, s.underway path = some u → ∃ t, .task t ∈ s.entries ∧ t.output = path := by
  apply h.keeps
  · intro path u hu
    cases hu
  · have hput : ∀ (s : State ρ) (path : Text) (content : Option Bytes) (m : Text) (u : Underway),
        (s.put path content).underway m = some u → ∃ v, s.underway m = some v := by
      intro s path content m u hu
      obtain ⟨before, hbefore, -⟩ := Option.map_eq_some_iff.mp hu
      exact ⟨before, hbefore⟩
    intro s event ih hallowed
    cases event with
    | write object path method =>
      intro m u hu
      obtain ⟨v, hv⟩ := hput s path _ m u hu
      obtain ⟨t, ht, hout⟩ := ih m v hv
      exact ⟨t, List.mem_cons_of_mem _ ht, hout⟩
    | submit t =>
      intro m u hu
      obtain ⟨t', ht, hout⟩ := ih m u hu
      exact ⟨t', List.mem_cons_of_mem _ ht, hout⟩
    | start t executor =>
      intro m u hu
      by_cases hm : m = t.output
      · exact ⟨t, hallowed.1, hm.symm⟩
      · simp only [State.step, Function.update_of_ne hm] at hu
        exact ih m u hu
    | scribble path left =>
      intro m u hu
      obtain ⟨v, hv⟩ := hput s path left m u hu
      exact ih m v hv
    | finish t view sched =>
      obtain ⟨-, v, hv, -⟩ := hallowed
      intro m u hu
      simp only [State.step, hv] at hu ⊢
      by_cases hm : m = t.output
      · rw [hm, Function.update_self] at hu
        cases hu
      · rw [Function.update_of_ne hm] at hu
        obtain ⟨w, hw⟩ := hput s t.output _ m u hu
        exact ih m w hw

/-- What the master wrote is done. -/
theorem written_done (h : IsReached c files executors s) :
    ∀ path reads, .written path reads ∈ s.entries → path ∈ s.done := by
  apply h.keeps
  · intro path reads hmem
    cases hmem
  · intro s event ih hallowed path reads hmem
    cases event with
    | write object path' method =>
      rcases List.mem_cons.mp hmem with heq | hmem
      · cases heq
        exact Set.mem_insert _ _
      · exact Set.mem_insert_of_mem _ (ih path reads hmem)
    | submit t => exact ih path reads ((List.mem_cons.mp hmem).resolve_left (by simp))
    | start t executor => exact ih path reads hmem
    | scribble path' left => exact ih path reads hmem
    | finish t view sched =>
      obtain ⟨-, v, hv, -⟩ := hallowed
      simp only [State.step, hv] at hmem ⊢
      have hdone := ih path reads hmem
      split
      · exact Set.mem_insert_of_mem _ hdone
      · exact hdone

/-- Everything that is underway can be brought to its end. -/
theorem drain (h : IsReached c files executors s)
    (hrun : ∀ t, .task t ∈ s.entries → Runnable c (sequential (program c s)) t)
    (paths : List Text) : ∃ s', Further c s s' ∧ ∀ path ∈ paths, s'.underway path = none := by
  induction paths with
  | nil => exact ⟨s, .refl s, by simp⟩
  | cons path paths ih =>
    obtain ⟨s₁, hfurther, hidle⟩ := ih
    cases hu : s₁.underway path with
    | none => exact ⟨s₁, hfurther, List.forall_mem_cons.mpr ⟨hu, hidle⟩⟩
    | some u =>
      have hreached := hfurther.isReached h
      obtain ⟨t, ht, rfl⟩ := underway_task hreached path u hu
      have hsame : program c s₁ = program c s := by rw [program, hfurther.entries]
      obtain ⟨s₂, hfurther', -, hstopped⟩ := finish_further hreached ht hu
        (hsame ▸ hrun t (hfurther.entries ▸ ht))
      exact ⟨s₂, hfurther.trans hfurther',
        List.forall_mem_cons.mpr ⟨hstopped, fun m hm => hfurther'.idle m (hidle m hm)⟩⟩

/-- When nothing is underway, a task whose inputs are done can be done next, on any executor. -/
theorem run_further (h : IsReached c files executors s) (hidle : ∀ path, s.underway path = none)
    {t : TaskLine} (ht : .task t ∈ s.entries) (hready : ∀ path ∈ t.inputs, path ∈ s.done)
    (hrun : Runnable c (sequential (program c s)) t) (executor : ℕ) :
    ∃ s', Further c s s' ∧ t.output ∈ s'.done := by
  by_cases hdone : t.output ∈ s.done
  · exact ⟨s, .refl s, hdone⟩
  · have hallowed : State.Allowed c s (.start t executor) := by
      refine ⟨ht, hready, hdone, fun path u hu => ?_⟩
      rw [hidle path] at hu
      cases hu
    let s₁ := State.step c (.start t executor) s
    have hreached : IsReached c files executors s₁ := .next _ h hallowed
    obtain ⟨s₂, hfurther, hdone', hstopped⟩ := finish_further hreached (show .task t ∈ s₁.entries
      from ht) (show s₁.underway t.output = _ from Function.update_self _ _ _) hrun
    have hfirst : Reached (State.step c) (State.Allowed c) s s₁ := .next _ .start hallowed
    refine ⟨s₂, ⟨hfirst.trans hfurther.reached, hfurther.entries, hfurther.done,
      fun path _ => ?_⟩, hdone'⟩
    by_cases hout : path = t.output
    · rw [hout]
      exact hstopped
    · apply hfurther.idle
      exact (Function.update_of_ne hout _ _).trans (hidle path)

/-- A task reads what was submitted before it. -/
theorem inputs_before (h : IsReached c files executors s) {t : TaskLine} {before es : List Entry}
    (hsplit : s.entries = before ++ .task t :: es) :
    ∀ path ∈ t.inputs, path ∈ es.map Entry.path := by
  have honce := (Dataflow.sound_of_reached (reached_dataflow h)).writeOnce
  have hprogram : (s.dataflow c).program = before.map (Entry.dataTask c) ++
      t.dataTask c :: es.map (Entry.dataTask c) := by
    rw [State.dataflow, hsplit, List.map_append, List.map_cons]
    rfl
  rw [hprogram] at honce
  cases honce.suffix with
  | cons _ known _ =>
    intro path hpath
    have htarget := known path hpath
    rw [targets, List.map_map] at htarget
    rwa [List.map_congr_left fun e _ => e.output_dataTask (c := c)] at htarget

/-- One entry after the other can be done, with no more than one executor. -/
theorem entries_can_be_done (h : IsReached c files executors s)
    (hrun : ∀ t, .task t ∈ s.entries → Runnable c (sequential (program c s)) t) (executor : ℕ)
    (es before : List Entry) (hsplit : s.entries = before ++ es) : ∃ s', Further c s s' ∧
      (∀ path, s'.underway path = none) ∧ ∀ e ∈ es, e.path ∈ s'.done := by
  induction es generalizing before with
  | nil =>
    obtain ⟨s₁, hfurther, hidle⟩ := drain h hrun (s.entries.map Entry.path)
    refine ⟨s₁, hfurther, fun path => ?_, by simp⟩
    cases hu : s₁.underway path with
    | none => rfl
    | some u =>
      obtain ⟨t, ht, rfl⟩ := underway_task (hfurther.isReached h) path u hu
      rw [hfurther.entries] at ht
      rw [hidle t.output (List.mem_map_of_mem (f := Entry.path) ht)] at hu
      cases hu
  | cons e es ih =>
    obtain ⟨s₁, hfurther, hidle, hdone⟩ := ih (before ++ [e]) (by simpa using hsplit)
    have hreached := hfurther.isReached h
    have hmem : e ∈ s₁.entries := by
      rw [hfurther.entries, hsplit]
      exact List.mem_append_right _ List.mem_cons_self
    cases e with
    | written path reads =>
      exact ⟨s₁, hfurther, hidle,
        List.forall_mem_cons.mpr ⟨written_done hreached path reads hmem, hdone⟩⟩
    | task t =>
      have hinputs : ∀ path ∈ t.inputs, path ∈ es.map Entry.path := inputs_before h hsplit
      have hready : ∀ path ∈ t.inputs, path ∈ s₁.done := by
        intro path hpath
        obtain ⟨e, he, rfl⟩ := List.mem_map.mp (hinputs path hpath)
        exact hdone e he
      have hsame : program c s₁ = program c s := by rw [program, hfurther.entries]
      obtain ⟨s₂, hfurther', hdone'⟩ := run_further hreached hidle hmem hready
        (hsame ▸ hrun t (hfurther.entries ▸ hmem)) executor
      exact ⟨s₂, hfurther.trans hfurther', fun path => hfurther'.idle path (hidle path),
        List.forall_mem_cons.mpr ⟨hdone', fun e he => hfurther'.done (hdone e he)⟩⟩

/-- From every state in which tasks whose functions return wait for each other, the runtime
can bring all of them to their end, with no more than one executor. -/
theorem all_can_be_done (c : Config ρ) (files : Files) (executors : ℕ → Process (Node ρ))
    (s : State ρ) (h : IsReached c files executors s)
    (hrun : ∀ t, .task t ∈ s.entries → Runnable c (sequential (program c s)) t) (executor : ℕ) :
    ∃ s', Further c s s' ∧ ∀ e ∈ s.entries, e.path ∈ s'.done := by
  obtain ⟨s', hfurther, -, hdone⟩ := entries_can_be_done h hrun executor s.entries [] rfl
  exact ⟨s', hfurther, hdone⟩

end

/-- The task submitted on `1:2` can be done. -/
theorem pair_can_be_done : ∃ s', Further pairConfig pairSubmitted s' ∧
    ∀ e ∈ pairSubmitted.entries, e.path ∈ s'.done := by
  apply all_can_be_done pairConfig (fun _ => none) (fun _ => freshExecutor) pairSubmitted
    pairSubmitted_reached _ 0
  intro t ht n a hinputs
  have htask : t = pairTask := by
    rcases List.mem_cons.mp ht with heq | ht
    · cases heq
      rfl
    · cases List.mem_singleton.mp ht
  subst htask
  have hinput : readable plainPackages n.files argumentFile = some oneTwo.value :=
    (hinputs _ (by decide)).trans pair_sequential
  obtain ⟨content, hrun, -⟩ := true_transported (n.files pairTask.output)
  exact payloadRuntime_succeeds pairTask.toLaidOut a n (pair_value hinput) hrun

end RCompss.System
