import RCompss.Executor.PayloadFiles
import RCompss.Executor.Run

/-! A task line carried out over payload files: what it reads, what it writes, what it replies. -/
namespace RCompss.Executor
open RCompss.Library RCompss.Payload

/-- A task whose parameters are laid out, with a record for its result. -/
structure LaidOut where
  message : TaskMessage
  layout : Layout
  result : ArgRecord
  params : message.params = layout.params
  returned : layout.returned = some result

namespace LaidOut

/-- The file of the result. -/
def output (t : LaidOut) : Text := stripValueSuffix t.result.value

/-- The method the result is written with. -/
def method (t : LaidOut) : Text := t.result.name.takeWhile (· ≠ '-')

/-- The files of the arguments. -/
def inputs (t : LaidOut) : List Text := inputFiles t.layout.records

/-- What the task's function returns when the files read as `σ`. -/
def value (t : LaidOut) (stod : Text → Option (BitVec 64)) (F : Functions)
    (σ : Text → Option SEXP) : Option SEXP :=
  taskValue stod (F t.message.moduleFile t.message.func) t.layout.records σ

end LaidOut

section
variable {ρ : Type} {rt : Runtime (Node ρ)} {d : Packages} {env : Option Text} {a : Affinity}

theorem exec_buildFunctionArgs (h : UsesPayloads rt d env) (l : Layout) (n : Node ρ) :
    match l.records.mapM (ArgRecord.valueIn rt.stod (readable d n.files)) with
    | some vs => exec (buildFunctionArgs rt a l.params) n =
        (.ok ⟨passed l.records vs, (l.recordsEnd : ℤ) + 1, l.numReturns⟩, n)
    | none => ∃ e, exec (buildFunctionArgs rt a l.params) n = (.error e, n) := by
  have hrecords := exec_decodeRecords (a := a) h l.records n
  have hindex : (l.front.length : ℤ) + 1 + (l.records.flatMap ArgRecord.tokens).length =
      (l.recordsEnd : ℤ) + 1 := by
    unfold Layout.recordsEnd
    push_cast
    ring
  rw [buildFunctionArgs_layout]
  cases hvs : l.records.mapM (ArgRecord.valueIn rt.stod (readable d n.files)) with
  | none =>
    rw [hvs] at hrecords
    obtain ⟨e, hraise⟩ := hrecords
    exact ⟨e, exec_bind_error hraise⟩
  | some vs =>
    rw [hvs] at hrecords
    have hdecoded : exec (decodeRecords rt a l.records) n =
      (.ok ((l.records.map ArgRecord.name).zip vs), n) := hrecords
    rw [exec_bind_ok hdecoded, filter_named, hindex]
    rfl

variable {F : Functions}

/-- A call that was made was one with the arguments read from the files at hand. -/
theorem Called.payload (h : UsesPayloads rt d env) (hF : Computes rt F) (t : LaidOut)
    {n n' : Node ρ} {built : FunctionArgs} {result : SEXP}
    (hcalled : Called rt t.message a n built result n') :
    t.value rt.stod F (readable d n.files) = some result ∧ n'.files = n.files ∧
      built.returnIndex = (t.layout.recordsEnd : ℤ) + 1 := by
  have hvalue := hF t.message a n built result n' hcalled
  obtain ⟨hread, hsource, hfound, hdecoded, hcall⟩ := hcalled
  rename_i s₁ s₂ s₃
  have h₁ : s₁.files = n.files := by simpa [hsource] using h.source t.message.moduleFile a n
  have h₂ : s₂.files = s₁.files := by simpa [hfound] using h.globalEnvExists t.message.func a s₁
  have hargs := exec_buildFunctionArgs (a := a) h t.layout s₂
  rw [← t.params, hdecoded] at hargs
  have h₄ : n'.files = s₃.files := by simpa [hcall] using h.call t.message.func built.args a s₃
  rw [h₂, h₁] at hargs
  unfold LaidOut.value taskValue
  cases hvs : t.layout.records.mapM (ArgRecord.valueIn rt.stod (readable d n.files)) with
  | none =>
    rw [hvs] at hargs
    obtain ⟨e, hraise⟩ := hargs
    cases hraise
  | some vs =>
    rw [hvs] at hargs
    cases hargs
    exact ⟨hvalue, h₄.trans (h₂.trans h₁), rfl⟩

/-- A task that succeeds has written what its function makes of the files it read. -/
theorem Succeeds.payload (h : UsesPayloads rt d env) (hF : Computes rt F) (t : LaidOut)
    {n n' : Node ρ} {path : Option Text} (hs : Succeeds rt t.message a n path n') :
    ∃ x content, t.value rt.stod F (readable d n.files) = some x ∧
      exec (rcompssSerialize d env x t.output t.method) (n.files t.output) = (.ok (), content) ∧
      n'.files = Function.update n.files t.output content := by
  rcases hs with ⟨hcalled, hunwanted⟩ | ⟨hcalled, -, hfile, hserialized⟩
  · obtain ⟨-, -, -, hdecoded, -⟩ := hcalled
    rename_i s₁ s₂ s₃
    have hargs := exec_buildFunctionArgs (a := a) h t.layout s₂
    rw [← t.params, hdecoded] at hargs
    have hone : (t.layout.numReturns : ℤ) = 1 := by simp [Layout.numReturns, t.returned]
    split at hargs
    · cases hargs
      simp only at hunwanted
      omega
    · obtain ⟨e, hraise⟩ := hargs
      cases hraise
  · rename_i result s' s'' method path
    obtain ⟨hvalue, hfiles, hindex⟩ := hcalled.payload h hF t
    rw [t.params, hindex, t.layout.returnFile_recordsEnd t.returned] at hfile
    cases hfile
    have hwrite := h.serialize result t.output t.method a s'
    rw [hfiles] at hwrite
    refine ⟨result, ?_⟩
    rcases hrun : exec (rcompssSerialize d env result t.output t.method) (n.files t.output) with
      ⟨e | ⟨⟩, content⟩
    · rw [hrun] at hwrite
      obtain ⟨e', hraise⟩ := hwrite
      cases hserialized.symm.trans hraise
    · rw [hrun] at hwrite
      cases hserialized.symm.trans hwrite
      exact ⟨content, hvalue, rfl, rfl⟩

/-- The files but one are as they were. -/
def Apart (path : Text) (files : Files) (n : Node ρ) : Prop :=
  ∀ m, m ≠ path → n.files m = files m

/-- However a task ends, it has written no file but that of its result. -/
theorem attemptTask_apart (h : UsesPayloads rt d env) (t : LaidOut) (p : Process (Node ρ)) :
    Meets (attemptTask rt t.message) p
      (fun _ q => Apart t.output p.session.files q.session)
      (fun _ q => Apart t.output p.session.files q.session) := by
  have same : ∀ {n : Node ρ}, n.files = p.session.files →
      Apart t.output p.session.files n := fun hn m _ => by rw [hn]
  unfold attemptTask
  rw [meets_bind, meets_get]
  split
  · exact same rfl
  simp only [meets_bind, meets_emit, meets_rethrow]
  have hsource := h.source t.message.moduleFile p.affinity p.session
  refine meets_inR (fun _ s₁ hrun => ?_) fun e s₁ hrun => ?_ <;> rw [hrun] at hsource
  swap
  · exact same hsource
  have hexists := h.globalEnvExists t.message.func p.affinity s₁
  refine meets_inR (fun found s₂ hrun => ?_) fun e s₂ hrun => ?_ <;> rw [hrun] at hexists
  swap
  · exact same (hexists.trans hsource)
  have h₂ := hexists.trans hsource
  cases found
  · exact same h₂
  simp only [Bool.not_true, Bool.false_eq_true, if_false, meets_bind, meets_rethrow]
  have hbuild := exec_buildFunctionArgs (a := p.affinity) h t.layout s₂
  rw [← t.params] at hbuild
  split at hbuild
  swap
  · obtain ⟨e, hraise⟩ := hbuild
    refine meets_inR (fun built s₃ hrun => ?_) fun e s₃ hrun => ?_
    · cases hraise.symm.trans hrun
    · cases hraise.symm.trans hrun
      exact same h₂
  next vs _ =>
  refine meets_inR (fun built s₃ hrun => ?_) fun e s₃ hrun => ?_
  swap
  · cases hbuild.symm.trans hrun
  cases hbuild.symm.trans hrun
  simp only [meets_emit, meets_noteCall]
  have hcall := h.call t.message.func (passed t.layout.records vs) p.affinity s₂
  refine meets_inR (fun result s₄ hrun => ?_) fun e s₄ hrun => ?_ <;> rw [hrun] at hcall
  swap
  · exact same (hcall.trans h₂)
  have h₄ := hcall.trans h₂
  split
  swap
  · exact same h₄
  unfold sendReturnValue
  simp only [meets_bind]
  refine meets_inR (fun file s₅ hfile => ?_) fun e s₅ hfile => ?_ <;>
    simp only [t.params, t.layout.returnFile_recordsEnd t.returned] at hfile <;> cases hfile
  simp only [meets_emit, meets_rethrow]
  have hwrite := h.serialize result t.output t.method p.affinity s₄
  have hapart (content : Option Bytes) :
      Apart t.output p.session.files
        { s₄ with files := Function.update s₄.files t.output content } := by
    intro m hm
    rw [← h₄]
    exact Function.update_of_ne hm _ _
  refine meets_inR (fun _ s₆ hrun => ?_) fun e s₆ hrun => ?_ <;>
    rcases hser : exec (rcompssSerialize d env result t.output t.method) (s₄.files t.output) with
      ⟨e' | ⟨⟩, content⟩ <;> rw [hser] at hwrite
  · obtain ⟨e', hraise⟩ := hwrite
    cases hrun.symm.trans hraise
  · cases hrun.symm.trans hwrite
    exact hapart content
  · obtain ⟨e', hraise⟩ := hwrite
    cases hrun.symm.trans hraise
    exact hapart content
  · cases hrun.symm.trans hwrite

/-- What carrying out a task leaves: one reply, and a file of its result behind a reply of
status 0. -/
structure CarriedOut (rt : Runtime (Node ρ)) (d : Packages) (env : Option Text) (F : Functions)
    (t : LaidOut) (p q : Process (Node ρ)) (success : Bool) : Prop where
  reply : q.output = p.output ++ [endTask t.message.taskId (if success then 0 else 1)]
  apart : Apart t.output p.session.files q.session
  written : success = true → ∃ x,
    t.value rt.stod F (readable d p.session.files) = some x ∧
      exec (rcompssSerialize d env x t.output t.method) (p.session.files t.output) =
        (.ok (), q.session.files t.output)

theorem executeTask_carriedOut (h : UsesPayloads rt d env) (hF : Computes rt F) (t : LaidOut)
    (sched : Scheduler) (p : Process (Node ρ)) :
    ∃ success q, exec (executeTask rt sched t.message) p = (.ok success, q) ∧
      CarriedOut rt d env F t p q success := by
  obtain ⟨success, q, hrun, hexecuted⟩ := exec_executeTask rt sched t.message p
  refine ⟨success, q, hrun, hexecuted.output, ?_, fun hsuccess => ?_⟩
  · obtain ⟨events, hbind⟩ := exec_bindTask sched t.message p
    let bound : Process (Node ρ) :=
      { p with affinity := boundAffinity sched t.message p.affinity, events := events }
    have hapart := attemptTask_apart h t bound
    unfold executeTask at hrun
    rw [exec_bind_ok (show exec (bindTask sched t.message) p = (.ok _, bound) from hbind),
      exec_bind, exec_tryCatch, exec_map] at hrun
    rcases hapart.run with ⟨_, q', hq, hapart⟩ | ⟨_, q', hq, hapart⟩ <;> rw [hq] at hrun <;>
      cases hrun
    · exact hapart
    · exact hapart
  · obtain ⟨path, hs⟩ := hexecuted.succeeds hsuccess
    obtain ⟨x, content, hvalue, hwrite, hfiles⟩ := hs.payload h hF t
    refine ⟨x, hvalue, ?_⟩
    rw [hwrite, hfiles, Function.update_self]

/-- So does the executor with the line of a task. -/
theorem handleLine_carriedOut (h : UsesPayloads rt d env) (hF : Computes rt F) (t : LaidOut)
    {δ : Delivery} (hparse : parseTaskMessage δ.line = some t.message) (p : Process (Node ρ)) :
    ∃ success q, exec (handleLine rt δ) p = (.ok (), q) ∧
      CarriedOut rt d env F t p q success := by
  have hline : δ.line ≠ [] := by
    intro hnil
    rw [hnil, parseTaskMessage_nil] at hparse
    cases hparse
  let p' : Process (Node ρ) := { p with events := p.events ++ [(9000200, 6)] ++ [(9000100, 4)] }
  obtain ⟨success, q, hrun, hdone⟩ := executeTask_carriedOut h hF t δ.sched p'
  have hend : exec (handleLine rt δ) p =
      (.ok (), { q with events := q.events ++ [(9000100, 0)] ++ [(9000200, 0)] }) := by
    unfold handleLine
    simp only [if_neg hline, hparse, exec_bind, exec_emit]
    rw [hrun]
  exact ⟨success, _, hend, hdone.reply, hdone.apart, hdone.written⟩

end

end RCompss.Executor
