import Mathlib.Data.List.Basic

/-! When filtering takes away a tail only. -/
namespace RCompss.Library

variable {α : Type} {p : α → Bool} {l l' : List α}

/-- Filtering leaves a first part exactly when nothing dropped precedes anything kept. -/
theorem filter_prefix_iff : l.filter p <+: l ↔ l.Pairwise fun a b => p b = true → p a = true := by
  induction l with
  | nil => simp
  | cons a l ih =>
    rw [List.pairwise_cons]
    by_cases ha : p a = true
    · rw [List.filter_cons_of_pos ha, List.prefix_cons_inj, ih]
      simp [ha]
    · rw [List.filter_cons_of_neg ha]
      constructor
      · intro h
        have hnil : l.filter p = [] := by
          rcases hl : l.filter p with _ | ⟨b, bs⟩
          · rfl
          · rw [hl, List.cons_prefix_cons] at h
            have hb : b ∈ l.filter p := by simp [hl]
            exact absurd (h.1 ▸ (List.mem_filter.mp hb).2) ha
        have hnone : ∀ b ∈ l, ¬ p b = true := List.filter_eq_nil_iff.mp hnil
        exact ⟨fun b hb hpb => absurd hpb (hnone b hb),
          ih.mp (hnil ▸ List.nil_prefix)⟩
      · rintro ⟨h, -⟩
        have hnil : l.filter p = [] := List.filter_eq_nil_iff.mpr fun b hb hpb => ha (h b hb hpb)
        rw [hnil]
        exact List.nil_prefix

theorem prefix_iff_getElem?_eq : l <+: l' ↔ ∀ i < l.length, l[i]? = l'[i]? := by
  rw [List.prefix_iff_getElem?]
  constructor
  · intro h i hi
    rw [h i hi, List.getElem?_eq_getElem hi]
  · intro h i hi
    rw [← h i hi, List.getElem?_eq_getElem hi]

end RCompss.Library
