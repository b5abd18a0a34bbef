import RCompss.Library.Exec

/-! Machines that take step after step: what every step keeps holds in every state reached. -/
namespace RCompss.Library

section
variable {σ ι : Type}

/-- The states reached by steps that are taken only where `ok` allows them. -/
inductive Reached (step : ι → σ → σ) (ok : σ → ι → Prop) (start : σ) : σ → Prop where
  | start : Reached step ok start start
  | next {s : σ} (op : ι) : Reached step ok start s → ok s op → Reached step ok start (step op s)

/-- An allowance for every step. -/
def anyStep : σ → ι → Prop := fun _ _ => True

variable {step : ι → σ → σ} {ok : σ → ι → Prop} {start s : σ}

theorem Reached.keeps {I : σ → Prop} (h : Reached step ok start s) (hstart : I start)
    (hstep : ∀ s op, I s → ok s op → I (step op s)) : I s := by
  induction h with
  | start => exact hstart
  | next op _ hok ih => exact hstep _ op ih hok

/-- A run can be continued. -/
theorem Reached.trans {t : σ} (h : Reached step ok start s) (h' : Reached step ok s t) :
    Reached step ok start t := by
  induction h' with
  | start => exact h
  | next op _ hok ih => exact .next op ih hok

/-- One step after the other. -/
def steps (step : ι → σ → σ) (ops : List ι) (s : σ) : σ := ops.foldl (fun s op => step op s) s

theorem Reached.allowed (h : Reached step ok start s) {ops : List ι}
    (hok : ∀ op ∈ ops, ∀ s, ok s op) : Reached step ok start (Library.steps step ops s) := by
  induction ops generalizing s with
  | nil => exact h
  | cons op ops ih =>
    exact ih (.next op h (hok op List.mem_cons_self s)) fun op' hop' =>
      hok op' (List.mem_cons_of_mem op hop')

theorem Reached.steps (h : Reached step anyStep start s) (ops : List ι) :
    Reached step anyStep start (Library.steps step ops s) :=
  h.allowed fun _ _ _ => trivial

end

section
variable {σ ε α β : Type} {I : σ → Prop}

/-- The computation keeps `I`, whether it returns or raises. -/
def Keeps (I : σ → Prop) (x : Exec σ ε α) : Prop :=
  ∀ s, I s → Meets x s (fun _ t => I t) fun _ t => I t

theorem Keeps.pure (a : α) : Keeps I (Pure.pure a : Exec σ ε α) := fun _ h => h

theorem keeps_throw (e : ε) : Keeps I (throw e : Exec σ ε α) := fun _ h => h

theorem keeps_get : Keeps I (get : Exec σ ε σ) := fun _ h => h

theorem keeps_modify {f : σ → σ} (h : ∀ s, I s → I (f s)) :
    Keeps I (modify f : Exec σ ε PUnit) := h

theorem Keeps.bind {x : Exec σ ε α} {f : α → Exec σ ε β} (hx : Keeps I x)
    (hf : ∀ a, Keeps I (f a)) : Keeps I (x >>= f) := by
  intro s hs
  rw [meets_bind]
  exact (hx s hs).imp fun a t ht => hf a t ht

theorem Keeps.tryCatch {x : Exec σ ε α} {h : ε → Exec σ ε α} (hx : Keeps I x)
    (hh : ∀ e, Keeps I (h e)) : Keeps I (MonadExcept.tryCatch x h) := by
  intro s hs
  rw [meets_tryCatch]
  exact (hx s hs).mono (fun _ _ ht => ht) fun e t ht => hh e t ht

theorem Keeps.ite {c : Prop} [Decidable c] {x y : Exec σ ε α} (hx : Keeps I x)
    (hy : Keeps I y) : Keeps I (if c then x else y) := by
  split
  · exact hx
  · exact hy

theorem Keeps.onlyIf {c : Prop} [Decidable c] {x : Exec σ ε Unit} (h : Keeps I x) :
    Keeps I (Library.onlyIf c x) := Keeps.ite h (Keeps.pure _)

theorem Keeps.forM {f : α → Exec σ ε PUnit} (h : ∀ a, Keeps I (f a)) (as : List α) :
    Keeps I (as.forM f) := by
  induction as with
  | nil => exact .pure _
  | cons a as ih =>
    rw [List.forM_eq_forM, List.forM_cons]
    exact (h a).bind fun _ => ih

/-- Where the computation returns, it keeps `I`. -/
def KeepsOk (I : σ → Prop) (x : Exec σ ε α) : Prop :=
  ∀ s, I s → Meets x s (fun _ t => I t) fun _ _ => True

theorem Keeps.ok {x : Exec σ ε α} (h : Keeps I x) : KeepsOk I x := fun s hs =>
  (h s hs).orRaises fun _ _ ht => ht

theorem KeepsOk.pure (a : α) : KeepsOk I (Pure.pure a : Exec σ ε α) := fun _ h => h

theorem keepsOk_throw (e : ε) : KeepsOk I (throw e : Exec σ ε α) := fun _ _ => trivial

theorem keepsOk_get : KeepsOk I (get : Exec σ ε σ) := fun _ h => h

theorem KeepsOk.bind {x : Exec σ ε α} {f : α → Exec σ ε β} (hx : KeepsOk I x)
    (hf : ∀ a, KeepsOk I (f a)) : KeepsOk I (x >>= f) := by
  intro s hs
  rw [meets_bind]
  exact (hx s hs).imp fun a t ht => hf a t ht

theorem KeepsOk.ite {c : Prop} [Decidable c] {x y : Exec σ ε α} (hx : KeepsOk I x)
    (hy : KeepsOk I y) : KeepsOk I (if c then x else y) := by
  split
  · exact hx
  · exact hy

theorem KeepsOk.onlyIf {c : Prop} [Decidable c] {x : Exec σ ε Unit} (h : KeepsOk I x) :
    KeepsOk I (Library.onlyIf c x) := KeepsOk.ite h (KeepsOk.pure _)

theorem KeepsOk.forM {f : α → Exec σ ε PUnit} (h : ∀ a, KeepsOk I (f a)) (as : List α) :
    KeepsOk I (as.forM f) := fun _ hs =>
  meets_forM (fun _ t => I t) (fun a _ t ht => h a t ht) as hs

end
end RCompss.Library
