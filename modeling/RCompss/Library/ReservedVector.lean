import Mathlib.Tactic

/-! Vectors whose elements have addresses. Like `std::vector` they move their elements when they
grow past their capacity, and an address taken before that is lost. -/
namespace RCompss.Library

structure ReservedVector (α : Type) where
  elements : List α
  capacity : ℕ
  /-- Where the elements are; another place each time they move. -/
  storage : ℕ
  fits : elements.length ≤ capacity

/-- The address of an element. -/
structure Slot where
  storage : ℕ
  index : ℕ
  deriving DecidableEq

namespace ReservedVector
variable {α : Type} {v : ReservedVector α} {a b : α} {i n : ℕ} {s : Slot}

def empty : ReservedVector α := ⟨[], 0, 0, le_rfl⟩

def reserve (v : ReservedVector α) (n : ℕ) : ReservedVector α :=
  if n ≤ v.capacity then v
  else ⟨v.elements, max v.capacity n, v.storage + 1, le_max_of_le_left v.fits⟩

def pushBack (v : ReservedVector α) (a : α) : ReservedVector α :=
  if h : v.elements.length < v.capacity then
    ⟨v.elements ++ [a], v.capacity, v.storage, by
      rw [List.length_append]
      exact h⟩
  else
    ⟨v.elements ++ [a], max (2 * v.capacity) 1, v.storage + 1, by
      have hfits := v.fits
      rw [List.length_append, List.length_singleton]
      omega⟩

/-- The address of the element at an index. -/
def slot? (v : ReservedVector α) (i : ℕ) : Option Slot :=
  if i < v.elements.length then some ⟨v.storage, i⟩ else none

/-- The element at an address. -/
def load (v : ReservedVector α) (s : Slot) : Option α :=
  if s.storage = v.storage then v.elements[s.index]? else none

@[simp] theorem reserve_elements : (v.reserve n).elements = v.elements := by
  unfold reserve
  split <;> rfl

theorem le_reserve_capacity : n ≤ (v.reserve n).capacity := by
  unfold reserve
  split
  · assumption
  · exact le_max_right _ _

@[simp] theorem pushBack_elements : (v.pushBack a).elements = v.elements ++ [a] := by
  unfold pushBack
  split <;> rfl

/-- Within the capacity nothing moves. -/
theorem pushBack_storage (h : v.elements.length < v.capacity) :
    (v.pushBack a).storage = v.storage := by
  rw [pushBack, dif_pos h]

theorem pushBack_capacity (h : v.elements.length < v.capacity) :
    (v.pushBack a).capacity = v.capacity := by
  rw [pushBack, dif_pos h]

/-- The new element is at the end. -/
theorem pushBack_slot : (v.pushBack a).slot? v.elements.length =
    some ⟨(v.pushBack a).storage, v.elements.length⟩ := by
  rw [slot?, if_pos]
  simp

@[simp] theorem load_pushBack_last :
    (v.pushBack a).load ⟨(v.pushBack a).storage, v.elements.length⟩ = some a := by
  simp [load]

/-- Within the capacity every address keeps its element. -/
theorem load_pushBack (h : v.elements.length < v.capacity) (hs : v.load s = some b) :
    (v.pushBack a).load s = some b := by
  unfold load at hs ⊢
  rw [pushBack_storage h]
  split at hs
  next hstorage =>
    obtain ⟨hi, -⟩ := List.getElem?_eq_some_iff.mp hs
    rw [if_pos hstorage, pushBack_elements, List.getElem?_append_left hi]
    exact hs
  next => contradiction

end ReservedVector
end RCompss.Library
