import Mathlib.Data.List.TakeWhile
import RCompss.Library.Words
import RCompss.RValue.Sexp

/-! C++ strings, one character for each byte, and the number formats the code uses. -/
namespace RCompss
open RCompss.Library

abbrev Text := List Char

instance : LawfulBEq Text := inferInstance

/-- `std::isspace` in the C locale. -/
def isSpace (c : Char) : Bool :=
  [' ', '\t', '\n', '\x0b', '\x0c', '\x0d'].contains c

/-- `CHAR` of an R string. -/
def RString.text (s : RString) : Text := s.bytes.map fun b => Char.ofNat b.toNat

/-- `Rcpp::as<std::string>` of a string element; the bytes of `NA_STRING` are its name. -/
def CharSXP.text : CharSXP → Text
  | none => "NA".toList
  | some s => s.text

/-- `std::to_string` of a natural number. -/
def decimal (n : ℕ) : Text := Nat.toDigits 10 n

/-- `std::stoi`: leading space, a sign, the longest run of digits; `none` for its
exceptions. -/
def stoi (str : Text) : Option ℤ :=
  let body := str.dropWhile isSpace
  let negative := body.head? == some '-'
  let digits := (if negative || body.head? == some '+' then body.tail else body).takeWhile
    Char.isDigit
  let n : ℤ := Nat.ofDigitChars 10 digits 0
  let n := if negative then -n else n
  if digits ≠ [] ∧ -2 ^ 31 ≤ n ∧ n < 2 ^ 31 then some n else none

theorem decimal_injective : Function.Injective decimal := by
  intro m n h
  have hvalue := congrArg (fun ds => Nat.ofDigitChars 10 ds 0) h
  simpa only [decimal, Nat.ofDigitChars_ten_toDigits] using hvalue

theorem decimal_ne_nil (n : ℕ) : decimal n ≠ [] := by
  unfold decimal
  rw [Nat.toDigits_eq_if (by decide)]
  split <;> simp

theorem isDigit_decimal {n : ℕ} {c : Char} (h : c ∈ decimal n) : c.isDigit = true :=
  Nat.isDigit_of_mem_toDigits (by decide) (by decide) h

theorem isSpace_of_isDigit {c : Char} (h : c.isDigit = true) : isSpace c = false := by
  unfold isSpace
  rw [List.contains_eq_mem, decide_eq_false_iff_not]
  intro hc
  simp only [List.mem_cons, List.not_mem_nil, or_false] at hc
  rcases hc with rfl | rfl | rfl | rfl | rfl | rfl <;> revert h <;> decide

/-- Numerals are words, and read back. -/
theorem isWord_decimal (n : ℕ) : IsWord isSpace (decimal n) :=
  ⟨decimal_ne_nil n, fun _ hc => isSpace_of_isDigit (isDigit_decimal hc)⟩

theorem stoi_decimal {n : ℕ} (h : n < 2 ^ 31) : stoi (decimal n) = some (n : ℤ) := by
  obtain ⟨c, cs, hcons⟩ := List.exists_cons_of_ne_nil (decimal_ne_nil n)
  have hdigit : ∀ d ∈ c :: cs, d.isDigit = true := fun d hd => isDigit_decimal (hcons ▸ hd)
  have hc := hdigit c (by simp)
  have hminus : c ≠ '-' := by
    rintro rfl
    revert hc
    decide
  have hplus : c ≠ '+' := by
    rintro rfl
    revert hc
    decide
  have hvalue : Nat.ofDigitChars 10 (c :: cs) 0 = n := by
    rw [← hcons]
    exact Nat.ofDigitChars_ten_toDigits
  have htake : (c :: cs).takeWhile Char.isDigit = c :: cs := List.takeWhile_eq_self_iff.mpr hdigit
  unfold stoi
  rw [hcons, List.dropWhile_cons_of_neg (by simp [isSpace_of_isDigit hc])]
  simp [hminus, hplus, htake, hvalue]
  omega

end RCompss
