import Mathlib.Tactic

/-! Lists cut at separators: at the first of them, after each of them, and by a traversal of the
pieces. -/
namespace RCompss.Library

variable {α : Type}

section
variable [DecidableEq α] {c : α} {a : List α} {as : List (List α)}

/-- What is before the first separator and what is after it. -/
def cut (c : α) (l : List α) : Option (List α × List α) :=
  match l.dropWhile (· ≠ c) with
  | _ :: rest => some (l.takeWhile (· ≠ c), rest)
  | [] => none

/-- The pieces of a list in which each piece is ended by a separator. -/
def ended (c : α) (l : List α) : Option (List (List α)) :=
  let pieces := l.splitOn c
  if pieces.getLast? = some [] then some pieces.dropLast else none

theorem cut_append (h : c ∉ a) (rest : List α) : cut c (a ++ c :: rest) = some (a, rest) := by
  have hall : ∀ x ∈ a, decide (x ≠ c) = true := by
    intro x hx
    exact decide_eq_true fun hc => h (hc ▸ hx)
  unfold cut
  rw [List.dropWhile_append_of_pos hall, List.takeWhile_append_of_pos hall]
  simp

/-- The first separator is in one place only. -/
theorem first_sep_inj {a' b b' : List α} (h : c ∉ a) (h' : c ∉ a')
    (heq : a ++ c :: b = a' ++ c :: b') : a = a' ∧ b = b' := by
  have hcut := congrArg (cut c) heq
  rw [cut_append h, cut_append h'] at hcut
  exact Prod.mk.inj (Option.some.inj hcut)

theorem splitOn_ended (h : ∀ a ∈ as, c ∉ a) :
    (as.flatMap (· ++ [c])).splitOn c = as ++ [[]] := by
  induction as with
  | nil => rfl
  | cons a as ih =>
      rw [List.forall_mem_cons] at h
      rw [List.flatMap_cons, List.append_assoc, List.singleton_append,
        List.splitOn_append_cons_self_of_not_mem h.1, ih h.2, List.cons_append]

/-- Pieces without separators are found again. -/
theorem ended_flatMap (h : ∀ a ∈ as, c ∉ a) : ended c (as.flatMap (· ++ [c])) = some as := by
  unfold ended
  rw [splitOn_ended h]
  simp

end

section
variable {a b : List α} {as : List (List α)}

/-- A separator that ends as each piece begins belongs to the pieces. -/
theorem append_intercalate (h : as ≠ []) :
    a ++ List.intercalate (b ++ a) as = List.intercalate b (as.map (a ++ ·)) := by
  induction as with
  | nil => contradiction
  | cons x as ih =>
      cases as with
      | nil => simp
      | cons y as =>
          rw [List.map_cons, List.map_cons, List.intercalate_cons_cons,
            List.intercalate_cons_cons, ← List.map_cons, ← ih (List.cons_ne_nil y as)]
          simp only [List.append_assoc]

/-- With one more at the end, a separator ends each piece. -/
theorem intercalate_append (h : as ≠ []) : List.intercalate b as ++ b = as.flatMap (· ++ b) := by
  induction as with
  | nil => contradiction
  | cons x as ih =>
      cases as with
      | nil => simp
      | cons y as =>
          rw [List.intercalate_cons_cons, List.flatMap_cons, ← ih (List.cons_ne_nil y as)]
          simp only [List.append_assoc]

end

/-- A traversal of what was made of a list element by element. -/
theorem mapM_map_eq_pure {m : Type → Type} [Monad m] [LawfulMonad m] {α β γ : Type} {f : γ → m β}
    {g : α → γ} {p : α → β} {l : List α} (h : ∀ a ∈ l, f (g a) = pure (p a)) :
    (l.map g).mapM f = pure (l.map p) := by
  induction l with
  | nil => rfl
  | cons a l ih =>
      rw [List.forall_mem_cons] at h
      simp only [List.map_cons, List.mapM_cons, h.1, ih h.2, pure_bind]

end RCompss.Library
