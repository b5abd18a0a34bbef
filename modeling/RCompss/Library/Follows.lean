import RCompss.Library.Exec

/-! Two computations side by side: what the second does whenever the first returns. -/
namespace RCompss.Library

variable {σ ε α β : Type} {R : σ → σ → Prop} {E : ε → Prop}

/-- From related states, whenever the first computation returns, the second returns the same
value into a related state or raises one of the errors in `E`. -/
def Follows (R : σ → σ → Prop) (E : ε → Prop) (x y : Exec σ ε α) : Prop :=
  ∀ s s', R s s' → ∀ a t, exec x s = (.ok a, t) →
    Meets y s' (fun b t' => b = a ∧ R t t') fun e _ => E e

theorem Follows.pure (a : α) : Follows R E (Pure.pure a) (Pure.pure a) := by
  intro s s' hs b t h
  cases h
  exact ⟨rfl, hs⟩

/-- A first computation that raises asks for nothing. -/
theorem follows_throw (e : ε) (y : Exec σ ε α) : Follows R E (throw e) y := by
  intro s s' _ a t h
  cases h

theorem follows_of_throw {e : ε} (he : E e) (x : Exec σ ε α) : Follows R E x (throw e) :=
  fun _ _ _ _ _ _ => he

theorem Follows.bind {x y : Exec σ ε α} {f g : α → Exec σ ε β} (hx : Follows R E x y)
    (hf : ∀ a, Follows R E (f a) (g a)) : Follows R E (x >>= f) (y >>= g) := by
  intro s s' hs b u h
  obtain ⟨a, t, hfirst, hrest⟩ := exec_bind_eq_ok.mp h
  rw [meets_bind]
  apply (hx s s' hs a t hfirst).imp
  intro a' t' ht
  obtain ⟨rfl, ht⟩ := ht
  exact hf a' t t' ht b u hrest

theorem Follows.modify {f g : σ → σ} (h : ∀ s s', R s s' → R (f s) (g s')) :
    Follows R E (modify f : Exec σ ε PUnit) (modify g) := by
  intro s s' hs b t hrun
  cases hrun
  exact ⟨rfl, h s s' hs⟩

theorem Follows.ite {c : Prop} [Decidable c] {x x' y y' : Exec σ ε α}
    (h : c → Follows R E x y) (h' : ¬ c → Follows R E x' y') :
    Follows R E (if c then x else x') (if c then y else y') := by
  split
  next hc => exact h hc
  next hc => exact h' hc

theorem Follows.repeatM {x y : Exec σ ε α} (h : Follows R E x y) (n : ℕ) :
    Follows R E (Library.repeatM x n) (Library.repeatM y n) := by
  induction n with
  | zero => exact Follows.pure []
  | succ n ih => exact h.bind fun a => ih.bind fun as => Follows.pure (a :: as)

end RCompss.Library
