import Mathlib.Tactic

/-! Stack consumption of sequential code: how many entries a piece of code leaves on a
stack, and how high it reaches while it runs. -/
namespace RCompss.Library

/-- Entries left behind, and the highest reach above the starting height. -/
structure StackUse where
  net : ℕ
  peak : ℕ
  net_le_peak : net ≤ peak
  deriving DecidableEq, Repr

namespace StackUse

@[ext] theorem ext {a b : StackUse} (hn : a.net = b.net) (hp : a.peak = b.peak) : a = b := by
  obtain ⟨_, _, _⟩ := a
  obtain ⟨_, _, _⟩ := b
  simp_all

/-- Run the second piece on top of what the first one left. -/
instance : Mul StackUse :=
  ⟨fun a b => ⟨a.net + b.net, max a.peak (a.net + b.peak), by
    have := b.net_le_peak
    omega⟩⟩

instance : One StackUse := ⟨⟨0, 0, le_rfl⟩⟩

@[simp] theorem net_mul (a b : StackUse) : (a * b).net = a.net + b.net := rfl

@[simp] theorem peak_mul (a b : StackUse) : (a * b).peak = max a.peak (a.net + b.peak) := rfl

@[simp] theorem net_one : (1 : StackUse).net = 0 := rfl

@[simp] theorem peak_one : (1 : StackUse).peak = 0 := rfl

instance : Monoid StackUse where
  mul_assoc a b c := by
    ext
    · simp only [net_mul, add_assoc]
    · simp only [peak_mul, net_mul]
      omega
  one_mul a := by ext <;> simp
  mul_one a := by
    have := a.net_le_peak
    ext <;> simp [this]

/-- Push one entry and leave it. -/
def push : StackUse := ⟨1, 1, le_rfl⟩

/-- Push one entry and pop it again. -/
def borrow : StackUse := ⟨0, 1, by decide⟩

end StackUse

/-- The height of a stack, and the greatest height it has had. -/
structure StackMeter where
  height : ℕ
  peak : ℕ
  height_le_peak : height ≤ peak
  deriving DecidableEq

namespace StackMeter

@[ext] theorem ext {a b : StackMeter} (hh : a.height = b.height) (hp : a.peak = b.peak) :
    a = b := by
  obtain ⟨_, _, _⟩ := a
  obtain ⟨_, _, _⟩ := b
  simp_all

def empty : StackMeter := ⟨0, 0, le_rfl⟩

def push (m : StackMeter) : StackMeter := ⟨m.height + 1, max m.peak (m.height + 1), by omega⟩

def pop (m : StackMeter) (n : ℕ) : StackMeter :=
  ⟨m.height - n, m.peak, by
    have := m.height_le_peak
    omega⟩

/-- The meter after a piece of code with the given use has run. -/
def advance (m : StackMeter) (u : StackUse) : StackMeter :=
  ⟨m.height + u.net, max m.peak (m.height + u.peak), by
    have := u.net_le_peak
    omega⟩

@[simp] theorem advance_height (m : StackMeter) (u : StackUse) :
    (m.advance u).height = m.height + u.net := rfl

@[simp] theorem advance_peak (m : StackMeter) (u : StackUse) :
    (m.advance u).peak = max m.peak (m.height + u.peak) := rfl

@[simp] theorem advance_one (m : StackMeter) : m.advance 1 = m := by
  have := m.height_le_peak
  ext <;> simp [this]

theorem advance_mul (m : StackMeter) (u v : StackUse) :
    m.advance (u * v) = (m.advance u).advance v := by
  ext
  · simp [add_assoc]
  · simp only [advance_peak, StackUse.peak_mul, advance_height]
    omega

theorem push_eq_advance (m : StackMeter) : m.push = m.advance .push := rfl

theorem push_pop (m : StackMeter) : m.push.pop 1 = m.advance .borrow := by
  ext <;> simp [push, pop, StackUse.borrow]

end StackMeter
end RCompss.Library
