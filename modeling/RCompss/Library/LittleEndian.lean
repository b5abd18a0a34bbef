import Mathlib.Tactic

/-! Fixed-width little-endian words over byte lists. -/
namespace RCompss.Library

abbrev Bytes := List UInt8

/-- The low `k` bytes of `n`, least significant first. -/
def toLE : ℕ → ℕ → Bytes
  | 0, _ => []
  | k + 1, n => UInt8.ofNat n :: toLE k (n / 256)

/-- The number whose bytes are given, least significant first. -/
def ofLE : Bytes → ℕ
  | [] => 0
  | b :: bs => b.toNat + 256 * ofLE bs

@[simp] theorem length_toLE (k n : ℕ) : (toLE k n).length = k := by
  induction k generalizing n with
  | zero => rfl
  | succ k ih => simp [toLE, ih]

/-- Reading a written word back gives its value modulo the width. -/
theorem ofLE_toLE (k n : ℕ) : ofLE (toLE k n) = n % 256 ^ k := by
  induction k generalizing n with
  | zero => simp [toLE, ofLE, Nat.mod_one]
  | succ k ih =>
    have hb : (UInt8.ofNat n).toNat = n % 256 := UInt8.toNat_ofNat'
    rw [toLE, ofLE, ih, hb, pow_succ']
    exact (Nat.mod_mul).symm

theorem ofLE_toLE_of_lt {k n : ℕ} (h : n < 256 ^ k) : ofLE (toLE k n) = n := by
  rw [ofLE_toLE, Nat.mod_eq_of_lt h]

theorem ofLE_lt (bs : Bytes) : ofLE bs < 256 ^ bs.length := by
  induction bs with
  | nil => simp [ofLE]
  | cons b bs ih =>
    have hb := b.toNat_lt
    rw [ofLE, List.length_cons, pow_succ]
    omega

/-- Split off `n` words of `k` bytes each. -/
def ofWords (k : ℕ) : ℕ → Bytes → List ℕ
  | 0, _ => []
  | n + 1, bs => ofLE (bs.take k) :: ofWords k n (bs.drop k)

theorem length_ofWords (k n : ℕ) (bs : Bytes) : (ofWords k n bs).length = n := by
  induction n generalizing bs with
  | zero => rfl
  | succ n ih => rw [ofWords, List.length_cons, ih]

theorem ofWords_flatMap {k : ℕ} (ws : List ℕ) (h : ∀ w ∈ ws, w < 256 ^ k) :
    ofWords k ws.length (ws.flatMap (toLE k)) = ws := by
  induction ws with
  | nil => rfl
  | cons w ws ih =>
    have hw : (toLE k w).length = k := length_toLE k w
    rw [List.flatMap_cons, List.length_cons, ofWords, List.take_left' hw, List.drop_left' hw,
      ofLE_toLE_of_lt (h w (by simp)), ih fun x hx => h x (by simp [hx])]

theorem length_flatMap_toLE (k : ℕ) (ws : List ℕ) :
    (ws.flatMap (toLE k)).length = ws.length * k := by
  induction ws with
  | nil => simp
  | cons w ws ih => simp [ih, Nat.add_mul, Nat.add_comm]

end RCompss.Library
