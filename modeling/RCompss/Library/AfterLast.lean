import Mathlib.Data.List.TakeWhile
import Mathlib.Tactic

/-! What follows the last separator of a list. -/
namespace RCompss.Library

variable {α : Type} {sep : α → Bool} {l r : List α} {c : α}

/-- The elements behind the last separator; all of them when there is none. -/
def afterLast (sep : α → Bool) (l : List α) : List α :=
  (l.reverse.takeWhile fun x => !sep x).reverse

theorem afterLast_of_free (h : ∀ x ∈ l, sep x = false) : afterLast sep l = l := by
  have hall : ∀ x ∈ l.reverse, (!sep x) = true := fun x hx => by
    simp [h x (List.mem_reverse.mp hx)]
  rw [afterLast, List.takeWhile_eq_self_iff.mpr hall, List.reverse_reverse]

theorem afterLast_free : ∀ x ∈ afterLast sep l, sep x = false := by
  intro x hx
  have hmem := List.mem_reverse.mp hx
  simpa using List.all_eq_true.mp List.all_takeWhile x hmem

/-- Nothing is cut off exactly when there is no separator. -/
theorem afterLast_eq_self_iff : afterLast sep l = l ↔ ∀ x ∈ l, sep x = false := by
  constructor
  · intro h
    rw [← h]
    exact afterLast_free
  · exact afterLast_of_free

/-- What stands in front of a separator is never looked at. -/
theorem afterLast_append_cons (h : sep c = true) (l r : List α) :
    afterLast sep (l ++ c :: r) = afterLast sep r := by
  have hreverse : (l ++ c :: r).reverse = r.reverse ++ c :: l.reverse := by simp
  have hstop : (c :: l.reverse).takeWhile (fun x => !sep x) = [] :=
    List.takeWhile_cons_of_neg (by simp [h])
  rw [afterLast, afterLast, hreverse, List.takeWhile_append, hstop, List.append_nil]
  split
  next hall => rw [(List.takeWhile_prefix _).eq_of_length hall]
  next => rfl

/-- The last separator is in one place only. -/
theorem last_sep_inj {l' r' : List α} (hc : sep c = true) (hr : ∀ x ∈ r, sep x = false)
    (hr' : ∀ x ∈ r', sep x = false) (h : l ++ c :: r = l' ++ c :: r') : l = l' ∧ r = r' := by
  have hlast := congrArg (afterLast sep) h
  rw [afterLast_append_cons hc, afterLast_append_cons hc, afterLast_of_free hr,
    afterLast_of_free hr'] at hlast
  subst hlast
  exact ⟨List.append_cancel_right h, rfl⟩

/-- What follows without separators stays. -/
theorem afterLast_append (l : List α) (h : ∀ x ∈ r, sep x = false) :
    afterLast sep (l ++ r) = afterLast sep l ++ r := by
  have hall : ∀ x ∈ r.reverse, (!sep x) = true := fun x hx => by
    simp [h x (List.mem_reverse.mp hx)]
  rw [afterLast, List.reverse_append, List.takeWhile_append_of_pos hall, List.reverse_append,
    List.reverse_reverse, afterLast]

end RCompss.Library
