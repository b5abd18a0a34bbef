import RCompss.Library.Runs

/-! Computations told by when they raise, and what becomes of a property of the state when
some of the raises keep it and others lose it. -/
namespace RCompss.Library

variable {σ ε α β : Type}

/-- Run from `s`, the computation raises into `E` where `c` holds, and returns into `Q` where
it does not. -/
def RaisesIf (x : Exec σ ε α) (s : σ) (c : Prop) (Q : α → σ → Prop) (E : σ → Prop) : Prop :=
  Meets x s (fun a t => ¬ c ∧ Q a t) fun _ t => c ∧ E t

namespace RaisesIf
variable {x : Exec σ ε α} {s : σ} {c : Prop} {Q : α → σ → Prop} {E : σ → Prop}

theorem mono {Q' : α → σ → Prop} {E' : σ → Prop} (h : RaisesIf x s c Q E)
    (hQ : ∀ a t, Q a t → Q' a t) (hE : ∀ t, E t → E' t) : RaisesIf x s c Q' E' :=
  Meets.mono h (fun a t ht => ⟨ht.1, hQ a t ht.2⟩) fun _ t ht => ⟨ht.1, hE t ht.2⟩

theorem congr {c' : Prop} (h : RaisesIf x s c Q E) (hc : c ↔ c') : RaisesIf x s c' Q E :=
  Meets.mono h (fun _ _ ht => ⟨fun hc' => ht.1 (hc.mpr hc'), ht.2⟩) fun _ _ ht =>
    ⟨hc.mp ht.1, ht.2⟩

/-- A check that raises. -/
theorem check {p : Prop} [Decidable p] {e : ε} : RaisesIf (onlyIf p (throw e) : Exec σ ε Unit) s p
    (fun _ t => t = s) fun t => t = s := by
  unfold onlyIf
  split
  next h => exact ⟨h, rfl⟩
  next h => exact ⟨h, rfl⟩

variable {P : σ → Prop} {d : Prop} {f : α → Exec σ ε β}

/-- A first part whose raises lose the property. -/
theorem lost (hx : RaisesIf x s c Q E) (hE : ∀ t, E t → ¬ P t)
    (hf : ∀ a t, ¬ c → Q a t → (P (exec (f a) t).2 ↔ d)) :
    P (exec (x >>= f) s).2 ↔ ¬ c ∧ d := by
  obtain ⟨a, t, hrun, hc, ht⟩ | ⟨e, t, hrun, hc, ht⟩ := Meets.run hx
  · rw [exec_bind_ok hrun, hf a t hc ht, and_iff_right hc]
  · rw [exec_bind_error hrun]
    exact iff_of_false (hE t ht) fun h => h.1 hc

/-- A first part whose raises keep the property. -/
theorem spared (hx : RaisesIf x s c Q E) (hE : ∀ t, E t → P t)
    (hf : ∀ a t, ¬ c → Q a t → (P (exec (f a) t).2 ↔ d)) :
    P (exec (x >>= f) s).2 ↔ c ∨ d := by
  obtain ⟨a, t, hrun, hc, ht⟩ | ⟨e, t, hrun, hc, ht⟩ := Meets.run hx
  · rw [exec_bind_ok hrun, hf a t hc ht, or_iff_right hc]
  · rw [exec_bind_error hrun]
    exact iff_of_true (hE t ht) (.inl hc)

/-- A first part whose raises keep the property, and nothing loses it later. -/
theorem kept (hx : RaisesIf x s c Q E) (hE : ∀ t, E t → P t)
    (hf : ∀ a t, Q a t → P (exec (f a) t).2) : P (exec (x >>= f) s).2 :=
  (hx.spared hE fun a t _ ht => iff_true_intro (hf a t ht)).mpr (.inr trivial)

end RaisesIf

/-- A computation that keeps a property leaves it. -/
theorem Keeps.left {x : Exec σ ε α} {s : σ} {P : σ → Prop} (h : Keeps P x) (hs : P s) :
    P (exec x s).2 := (h s hs).state

end RCompss.Library
