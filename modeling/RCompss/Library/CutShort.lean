import RCompss.Library.Exec

/-! Computations under a bound: what is lost when the bound is hit. -/
namespace RCompss.Library

variable {σ ε α β : Type} {e : ε}

/-- The first computation runs like the second, unless it raises `e`. -/
def CutShort (e : ε) (x y : Exec σ ε α) : Prop :=
  ∀ s, (exec x s).1 = .error e ∨ exec x s = exec y s

theorem CutShort.refl (x : Exec σ ε α) : CutShort e x x := fun _ => .inr rfl

theorem cutShort_throw (y : Exec σ ε α) : CutShort e (throw e) y := fun _ => .inl rfl

theorem CutShort.bind {x y : Exec σ ε α} {f g : α → Exec σ ε β} (hx : CutShort e x y)
    (hf : ∀ a, CutShort e (f a) (g a)) : CutShort e (x >>= f) (y >>= g) := by
  intro s
  rcases hrun : exec x s with ⟨e' | a, t⟩
  · rw [exec_bind_error hrun]
    rcases hx s with hcut | hsame
    · rw [hrun] at hcut
      cases hcut
      exact .inl rfl
    · rw [hrun] at hsame
      exact .inr (exec_bind_error hsame.symm).symm
  · rw [exec_bind_ok hrun]
    rcases hx s with hcut | hsame
    · rw [hrun] at hcut
      cases hcut
    · rw [hrun] at hsame
      rw [exec_bind_ok hsame.symm]
      exact hf a t

theorem CutShort.ite {c : Prop} [Decidable c] {x x' y y' : Exec σ ε α} (h : CutShort e x y)
    (h' : CutShort e x' y') : CutShort e (if c then x else x') (if c then y else y') := by
  split
  · exact h
  · exact h'

theorem CutShort.repeatM {x y : Exec σ ε α} (h : CutShort e x y) (n : ℕ) :
    CutShort e (Library.repeatM x n) (Library.repeatM y n) := by
  induction n with
  | zero => exact .refl _
  | succ n ih => exact h.bind fun a => ih.bind fun as => .refl _

/-- A run that did not hit the bound is that of the computation without it. -/
theorem CutShort.eq_of_ne {x y : Exec σ ε α} (h : CutShort e x y) {s : σ}
    (hne : (exec x s).1 ≠ .error e) : exec x s = exec y s := (h s).resolve_left hne

end RCompss.Library
