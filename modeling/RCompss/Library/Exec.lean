import Mathlib.Tactic

/-! Computations that return or raise over a state. A raise keeps the state reached
so far, as a C++ `throw` keeps the side effects made before it. -/
namespace RCompss.Library

abbrev Exec (σ ε : Type) := ExceptT ε (StateM σ)

variable {σ ε α β : Type}

/-- Run a computation: how it ended, and the state it left. -/
def exec (x : Exec σ ε α) (s : σ) : Except ε α × σ := x.run.run s

@[simp] theorem exec_pure (a : α) (s : σ) : exec (pure a : Exec σ ε α) s = (.ok a, s) := rfl

@[simp] theorem exec_throw (e : ε) (s : σ) :
    exec (throw e : Exec σ ε α) s = (.error e, s) := rfl

@[simp] theorem exec_get (s : σ) : exec (get : Exec σ ε σ) s = (.ok s, s) := rfl

@[simp] theorem exec_set (s t : σ) : exec (set t : Exec σ ε PUnit) s = (.ok ⟨⟩, t) := rfl

@[simp] theorem exec_modify (f : σ → σ) (s : σ) :
    exec (modify f : Exec σ ε PUnit) s = (.ok ⟨⟩, f s) := rfl

theorem exec_bind (x : Exec σ ε α) (f : α → Exec σ ε β) (s : σ) :
    exec (x >>= f) s = match exec x s with
      | (.ok a, t) => exec (f a) t
      | (.error e, t) => (.error e, t) := by
  simp only [exec, ExceptT.run_bind, StateT.run_bind]
  rcases x.run.run s with ⟨_ | _, t⟩ <;> rfl

@[simp] theorem exec_map (f : α → β) (x : Exec σ ε α) (s : σ) :
    exec (f <$> x) s = match exec x s with
      | (.ok a, t) => (.ok (f a), t)
      | (.error e, t) => (.error e, t) := by
  rw [map_eq_pure_bind, exec_bind]
  rfl

/-- A first part that returns hands its value and its state to the rest. -/
theorem exec_bind_ok {x : Exec σ ε α} {f : α → Exec σ ε β} {s t : σ} {a : α}
    (h : exec x s = (.ok a, t)) : exec (x >>= f) s = exec (f a) t := by
  rw [exec_bind, h]

/-- A first part that raises ends the whole computation where it stopped. -/
theorem exec_bind_error {x : Exec σ ε α} {f : α → Exec σ ε β} {s t : σ} {e : ε}
    (h : exec x s = (.error e, t)) : exec (x >>= f) s = (.error e, t) := by
  rw [exec_bind, h]

/-- A computation that returns did so in both of its parts. -/
theorem exec_bind_eq_ok {x : Exec σ ε α} {f : α → Exec σ ε β} {s u : σ} {b : β} :
    exec (x >>= f) s = (.ok b, u) ↔ ∃ a t, exec x s = (.ok a, t) ∧ exec (f a) t = (.ok b, u) := by
  rw [exec_bind]
  rcases exec x s with ⟨e | a, t⟩
  · simp
  · constructor
    · exact fun h => ⟨a, t, rfl, h⟩
    · rintro ⟨_, _, ⟨⟩, h⟩
      exact h

/-- A computation without state leaves the state. -/
@[simp] theorem exec_lift (x : Except ε α) (s : σ) :
    exec (liftM x : Exec σ ε α) s = (x, s) := by
  cases x <;> rfl

theorem except_bind_eq_ok {x : Except ε α} {f : α → Except ε β} {b : β} :
    (x >>= f) = .ok b ↔ ∃ a, x = .ok a ∧ f a = .ok b := by
  cases x with
  | error e => simp [Bind.bind, Except.bind]
  | ok a => simp [Bind.bind, Except.bind]

/-- A traversal returns when each of its steps does, and then what the steps returned. -/
theorem mapM_eq_ok {f : α → Except ε β} {as : List α} {bs : List β} :
    as.mapM f = .ok bs ↔ List.Forall₂ (fun a b => f a = .ok b) as bs := by
  induction as generalizing bs with
  | nil =>
      rw [List.mapM_nil, List.forall₂_nil_left_iff]
      constructor
      · intro h
        cases h
        rfl
      · intro h
        rw [h]
        rfl
  | cons a as ih =>
      rw [List.mapM_cons, except_bind_eq_ok, List.forall₂_cons_left_iff]
      constructor
      · intro h
        obtain ⟨b, hb, hrest⟩ := h
        obtain ⟨bs', hbs, hcons⟩ := except_bind_eq_ok.mp hrest
        cases hcons
        exact ⟨b, bs', hb, ih.mp hbs, rfl⟩
      · intro h
        obtain ⟨b, bs', hb, hbs, hcons⟩ := h
        subst hcons
        exact ⟨b, hb, except_bind_eq_ok.mpr ⟨bs', ih.mpr hbs, rfl⟩⟩

/-- A traversal that returns did so at each of its steps. -/
theorem exists_of_mapM_eq_ok {f : α → Except ε β} {as : List α} {bs : List β}
    (h : as.mapM f = .ok bs) {a : α} (ha : a ∈ as) : ∃ b, f a = .ok b := by
  have hsteps := mapM_eq_ok.mp h
  clear h
  induction hsteps with
  | nil => cases ha
  | cons hstep _ ih =>
      obtain rfl | ha := List.mem_cons.mp ha
      · exact ⟨_, hstep⟩
      · exact ih ha

theorem exec_tryCatch (x : Exec σ ε α) (h : ε → Exec σ ε α) (s : σ) :
    exec (tryCatch x h) s = match exec x s with
      | (.ok a, t) => (.ok a, t)
      | (.error e, t) => exec (h e) t := by
  simp only [exec, ExceptT.run_tryCatch, StateT.run_bind]
  rcases x.run.run s with ⟨_ | _, t⟩ <;> rfl

/-- A handler that raises what it caught changes nothing. -/
@[simp] theorem exec_rethrow (x : Exec σ ε α) (s : σ) :
    exec (tryCatch x fun e => throw e) s = exec x s := by
  rw [exec_tryCatch]
  rcases exec x s with ⟨_ | _, t⟩ <;> rfl

/-- Run from `s`, the computation returns into `Q` or raises into `E`. -/
def Meets (x : Exec σ ε α) (s : σ) (Q : α → σ → Prop) (E : ε → σ → Prop) : Prop :=
  match exec x s with
  | (.ok a, t) => Q a t
  | (.error e, t) => E e t

section
variable {Q : α → σ → Prop} {E : ε → σ → Prop} {s : σ}

@[simp] theorem meets_pure (a : α) : Meets (pure a : Exec σ ε α) s Q E ↔ Q a s := Iff.rfl

@[simp] theorem meets_throw (e : ε) : Meets (throw e : Exec σ ε α) s Q E ↔ E e s := Iff.rfl

@[simp] theorem meets_get {Q : σ → σ → Prop} :
    Meets (get : Exec σ ε σ) s Q E ↔ Q s s := Iff.rfl

@[simp] theorem meets_modify {Q : PUnit → σ → Prop} (f : σ → σ) :
    Meets (modify f : Exec σ ε PUnit) s Q E ↔ Q ⟨⟩ (f s) := Iff.rfl

@[simp] theorem meets_set {Q : PUnit → σ → Prop} (t : σ) :
    Meets (set t : Exec σ ε PUnit) s Q E ↔ Q ⟨⟩ t := Iff.rfl

@[simp] theorem meets_bind (x : Exec σ ε β) (f : β → Exec σ ε α) :
    Meets (x >>= f) s Q E ↔ Meets x s (fun b t => Meets (f b) t Q E) E := by
  simp only [Meets, exec_bind]
  rcases exec x s with ⟨_ | _, t⟩ <;> rfl

@[simp] theorem meets_map (f : β → α) (x : Exec σ ε β) :
    Meets (f <$> x) s Q E ↔ Meets x s (fun b t => Q (f b) t) E := by
  simp only [Meets, exec_map]
  rcases exec x s with ⟨_ | _, t⟩ <;> rfl

@[simp] theorem meets_tryCatch (x : Exec σ ε α) (h : ε → Exec σ ε α) :
    Meets (tryCatch x h) s Q E ↔ Meets x s Q fun e t => Meets (h e) t Q E := by
  simp only [Meets, exec_tryCatch]
  rcases exec x s with ⟨_ | _, t⟩ <;> rfl

@[simp] theorem meets_rethrow (x : Exec σ ε α) :
    Meets (tryCatch x fun e => throw e) s Q E ↔ Meets x s Q E := by
  rw [Meets, Meets, exec_rethrow]

/-- To run a computation without state, look at how it ends. -/
theorem meets_lift {x : Except ε α} (hok : ∀ a, x = .ok a → Q a s)
    (herr : ∀ e, x = .error e → E e s) : Meets (liftM x : Exec σ ε α) s Q E := by
  unfold Meets
  rw [exec_lift]
  cases x with
  | ok a => exact hok a rfl
  | error e => exact herr e rfl

theorem Meets.mono {x : Exec σ ε α} {Q' : α → σ → Prop} {E' : ε → σ → Prop}
    (h : Meets x s Q E) (hQ : ∀ a t, Q a t → Q' a t) (hE : ∀ e t, E e t → E' e t) :
    Meets x s Q' E' := by
  unfold Meets at *
  revert h
  rcases exec x s with ⟨e | a, t⟩
  · exact hE e t
  · exact hQ a t

theorem Meets.imp {x : Exec σ ε α} {Q' : α → σ → Prop} (h : Meets x s Q E)
    (hQ : ∀ a t, Q a t → Q' a t) : Meets x s Q' E := h.mono hQ fun _ _ he => he

/-- What never raises, whatever is asked of a raise. -/
theorem Meets.returns {x : Exec σ ε α} {Q' : α → σ → Prop} {E' : ε → σ → Prop}
    (h : Meets x s Q fun _ _ => False) (hQ : ∀ a t, Q a t → Q' a t) : Meets x s Q' E' :=
  h.mono hQ fun _ _ he => he.elim

/-- Nothing is asked of a raise. -/
theorem Meets.orRaises {x : Exec σ ε α} {Q' : α → σ → Prop} (h : Meets x s Q E)
    (hQ : ∀ a t, Q a t → Q' a t) : Meets x s Q' fun _ _ => True :=
  h.mono hQ fun _ _ _ => trivial

theorem Meets.and {x : Exec σ ε α} {Q' : α → σ → Prop} {E' : ε → σ → Prop} (h : Meets x s Q E)
    (h' : Meets x s Q' E') :
    Meets x s (fun a t => Q a t ∧ Q' a t) fun e t => E e t ∧ E' e t := by
  unfold Meets at *
  revert h h'
  rcases exec x s with ⟨e | a, t⟩
  · exact And.intro
  · exact And.intro

/-- A run that meets its postconditions ended in one of the two ways. -/
theorem Meets.run {x : Exec σ ε α} (h : Meets x s Q E) :
    (∃ a t, exec x s = (.ok a, t) ∧ Q a t) ∨ ∃ e t, exec x s = (.error e, t) ∧ E e t := by
  unfold Meets at h
  rcases hrun : exec x s with ⟨e | a, t⟩ <;> rw [hrun] at h
  · exact .inr ⟨e, t, rfl, h⟩
  · exact .inl ⟨a, t, rfl, h⟩

/-- The state it left, either way. -/
theorem Meets.state {x : Exec σ ε α} {P : σ → Prop}
    (h : Meets x s (fun _ t => P t) fun _ t => P t) : P (exec x s).2 := by
  obtain ⟨a, t, hrun, ht⟩ | ⟨e, t, hrun, ht⟩ := h.run
  · rw [hrun]
    exact ht
  · rw [hrun]
    exact ht

end

/-- An `if` without an `else`. -/
def onlyIf (c : Prop) [Decidable c] (x : Exec σ ε Unit) : Exec σ ε Unit :=
  if c then x else pure ()

theorem meets_onlyIf {c : Prop} [Decidable c] {x : Exec σ ε Unit} {s : σ}
    {Q : Unit → σ → Prop} {E : ε → σ → Prop} :
    Meets (onlyIf c x) s Q E ↔ if c then Meets x s Q E else Q () s := by
  unfold onlyIf
  split <;> rfl

/-- A loop over a list, with what holds before each of its steps. -/
theorem meets_forM {f : α → Exec σ ε PUnit} (inv : List α → σ → Prop) {E : ε → σ → Prop}
    (hstep : ∀ a as s, inv (a :: as) s → Meets (f a) s (fun _ t => inv as t) E) (as : List α)
    {s : σ} (hs : inv as s) : Meets (as.forM f) s (fun _ t => inv [] t) E := by
  induction as generalizing s with
  | nil => exact hs
  | cons a as ih =>
      rw [List.forM_eq_forM, List.forM_cons, meets_bind]
      exact (hstep a as s hs).mono (fun _ t ht => ih ht) fun _ _ he => he

/-- Run `act` `n` times and collect the results in order. -/
def repeatM (act : Exec σ ε α) : ℕ → Exec σ ε (List α)
  | 0 => pure []
  | n + 1 => do
      let a ← act
      let as ← repeatM act n
      return a :: as

end RCompss.Library
