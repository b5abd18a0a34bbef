import RCompss.Executor.Run

/-! When a reply with status 0 tells the truth. -/
namespace RCompss.Executor
open RCompss.Library

variable {ρ : Type} {rt : Runtime ρ} {message : TaskMessage} {a : Affinity}

theorem Called.unique {s t t' : ρ} {built built' : FunctionArgs} {result result' : SEXP}
    (h : Called rt message a s built result t) (h' : Called rt message a s built' result' t') :
    built' = built ∧ result' = result ∧ t' = t := by
  obtain ⟨-, hsource, hfound, hbuilt, hcall⟩ := h
  obtain ⟨-, hsource', hfound', hbuilt', hcall'⟩ := h'
  cases hsource.symm.trans hsource'
  cases hfound.symm.trans hfound'
  cases hbuilt.symm.trans hbuilt'
  cases hcall.symm.trans hcall'
  exact ⟨rfl, rfl, rfl⟩

/-- The steps of a task can succeed in one way only. -/
theorem Succeeds.unique {s t t' : ρ} {path path' : Option Text}
    (h : Succeeds rt message a s path t) (h' : Succeeds rt message a s path' t') :
    path' = path ∧ t' = t := by
  rcases h with ⟨hcalled, hret⟩ | ⟨hcalled, hret, hfile, hser⟩ <;>
    rcases h' with ⟨hcalled', hret'⟩ | ⟨hcalled', hret', hfile', hser'⟩ <;>
    obtain ⟨rfl, rfl, rfl⟩ := hcalled.unique hcalled'
  · exact ⟨rfl, rfl⟩
  · omega
  · omega
  · cases hfile.symm.trans hfile'
    cases hser.symm.trans hser'
    exact ⟨rfl, rfl⟩

theorem endTask_injective (taskId : Text) {status status' : ℕ}
    (h : endTask taskId status = endTask taskId status') : status = status' := by
  unfold endTask at h
  exact decimal_injective (List.cons.inj (List.append_cancel_left h)).2

/-- The reply of status 0 was written. -/
def RepliesZero (rt : Runtime ρ) (sched : Scheduler) (message : TaskMessage) (p : Process ρ) :
    Prop :=
  (exec (executeTask rt sched message) p).2.output = p.output ++ [endTask message.taskId 0]

/-- All steps of the task succeeded, and the file of its result can be read when the reply
is sent. -/
def Truthful (rt : Runtime ρ) (sched : Scheduler) (message : TaskMessage) (p : Process ρ) :
    Prop :=
  ∃ path, Succeeds rt message (boundAffinity sched message p.affinity) p.session path
      (exec (executeTask rt sched message) p).2.session ∧
    ∀ file ∈ path, rt.readable file (exec (executeTask rt sched message) p).2.session = true

/-- A return file that is not there makes the reply of status 0 a false one. -/
theorem not_truthful_of_missing {sched : Scheduler} {p : Process ρ} {file : Text} {t : ρ}
    (hsucc : Succeeds rt message (boundAffinity sched message p.affinity) p.session (some file) t)
    (hfile : rt.readable file t = false) :
    RepliesZero rt sched message p ∧ ¬ Truthful rt sched message p := by
  obtain ⟨q, hrun, rfl⟩ := executeTask_of_succeeds hsucc
  obtain ⟨success, q', hrun', hex⟩ := exec_executeTask rt sched message p
  cases hrun.symm.trans hrun'
  unfold RepliesZero Truthful
  rw [hrun]
  refine ⟨hex.output, ?_⟩
  rintro ⟨path, hpath, hread⟩
  obtain ⟨rfl, -⟩ := hsucc.unique hpath
  rw [hread file rfl] at hfile
  contradiction

/-- Status 0 tells the truth exactly when the return file does not go missing behind a
serialization that reports success. -/
theorem repliesZero_truthful_iff (rt : Runtime ρ) (sched : Scheduler) (message : TaskMessage)
    (p : Process ρ) :
    (RepliesZero rt sched message p → Truthful rt sched message p) ↔
      ¬ ∃ file t, Succeeds rt message (boundAffinity sched message p.affinity) p.session
          (some file) t ∧ rt.readable file t = false := by
  constructor
  · rintro htrue ⟨file, t, hsucc, hfile⟩
    obtain ⟨hzero, hfalse⟩ := not_truthful_of_missing hsucc hfile
    exact hfalse (htrue hzero)
  · intro hmissing hzero
    obtain ⟨success, q, hrun, hex⟩ := exec_executeTask rt sched message p
    unfold RepliesZero at hzero
    unfold Truthful
    rw [hrun] at hzero ⊢
    have hsuccess : success = true := by
      rw [hex.output, List.append_cancel_left_eq, List.singleton_inj] at hzero
      have hstatus := endTask_injective _ hzero
      cases success <;> simp at hstatus ⊢
    obtain ⟨path, hpath⟩ := hex.succeeds hsuccess
    refine ⟨path, hpath, fun file hfile => ?_⟩
    obtain rfl : path = some file := hfile
    by_contra hread
    exact hmissing ⟨file, q.session, hpath, by simpa using hread⟩

/-- Nothing makes status 0 wait for the file of the result. -/
theorem lost_return_file :
    ¬ ∀ (ρ : Type) (rt : Runtime ρ) (sched : Scheduler) (message : TaskMessage) (p : Process ρ),
      RepliesZero rt sched message p → Truthful rt sched message p := by
  intro h
  let p : Process Unit := ⟨(), ⟨none, none, none, none, none, {0}⟩, [], [], []⟩
  have hsucc := nullaryTask_succeeds (boundAffinity (fun _ => none) nullaryTask p.affinity)
  obtain ⟨hzero, hfalse⟩ := not_truthful_of_missing (p := p) hsucc rfl
  exact hfalse (h _ _ _ _ _ hzero)

end RCompss.Executor
