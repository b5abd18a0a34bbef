import RCompss.Library.Exec
import RCompss.Library.Separated
import RCompss.Submission.Constraints

/-! Constraint strings read by their grammar: `key:value;` repeated, where a list of processors is
`[{k: v, k: v}, {..}]`. -/
namespace RCompss.Submission
open RCompss.Library

/-- A value in a constraint string. -/
inductive ParsedValue where
  | text (t : Text)
  | processors (records : List (List (Text × Text)))
  deriving DecidableEq

/-- A field `k: v` after a blank. -/
def parseField : Text → Option (Text × Text)
  | ' ' :: field =>
      match cut ':' field with
      | some (k, ' ' :: v) => some (k, v)
      | _ => none
  | _ => none

def parseFields (fields : Text) : Option (List (Text × Text)) :=
  if fields = [] then some [] else ((' ' :: fields).splitOn ',').mapM parseField

/-- A record after a comma, up to its closing brace. -/
def parseRecord : Text → Option (List (Text × Text))
  | ',' :: ' ' :: '\x7b' :: fields => parseFields fields
  | _ => none

def parseRecords (records : Text) : Option (List (List (Text × Text))) :=
  if records = [] then some []
  else (ended '\x7d' (',' :: ' ' :: records)).bind (·.mapM parseRecord)

def parseValue : Text → Option ParsedValue
  | '[' :: rest =>
      if rest.getLast? = some ']' then (parseRecords rest.dropLast).map .processors else none
  | t => some (.text t)

def parseConstraint (s : Text) : Option (Text × ParsedValue) := do
  let (key, value) ← cut ':' s
  return (key, ← parseValue value)

/-- The constraints in a constraint string. -/
def parseConstraints (s : Text) : Option (List (Text × ParsedValue)) := do
  (← ended ';' s).mapM parseConstraint

/-- The digits of a number up to its last that is not zero. -/
def significand (n : ℕ) : Text := ((decimal n).reverse.dropWhile (· = '0')).reverse

/-- A number with one digit before the point and an exponent, as R writes it. -/
def scientific (n : ℤ) : Text :=
  let mantissa := match significand n.natAbs with
    | d :: e :: digits => d :: '.' :: e :: digits
    | digits => digits
  let exponent := (decimal n.natAbs).length - 1
  (if n < 0 then ['-'] else []) ++ mantissa ++ 'e' :: '+' ::
    (if exponent < 10 then '0' :: decimal exponent else decimal exponent)

/-- Digits alone, unless that is wider. -/
def shorter (n : ℤ) : Text :=
  if (decimalInt n).length ≤ (scientific n).length then decimalInt n else scientific n

/-- `as.character` of a double that is an integer. It keeps fifteen significant digits. -/
structure NumberFormat where
  asCharacter : ℤ → Text
  short : ∀ n, n.natAbs < 10 ^ 15 → asCharacter n = shorter n
  numeric : ∀ n, ∀ c ∈ asCharacter n, c.isDigit = true ∨ c ∈ ['-', '.', 'e', '+']

/-- A value of a constraint or of a field of a processor. -/
inductive Scalar where
  | text (t : Text)
  /-- An integer that is not `NA`. -/
  | integer (n : ℤ)
  /-- A double that is an integer. -/
  | double (n : ℤ)
  | logical (b : Bool)
  deriving DecidableEq

/-- A record of a processors list. -/
inductive Record where
  | named (fields : List (Text × Scalar))
  /-- The empty list `list()`, whose names are `NULL`. -/
  | bare
  deriving DecidableEq

def Record.fields : Record → List (Text × Scalar)
  | .named fields => fields
  | .bare => []

inductive Setting where
  | scalar (s : Scalar)
  | processors (records : List Record)

namespace Scalar

/-- A scalar as a constraint string is to spell it. -/
def spelled : Scalar → Text
  | .text t => t
  | .integer n | .double n => decimalInt n
  | .logical b => if b then "true".toList else "false".toList

def argument (f : NumberFormat) : Scalar → ConstraintArg
  | .text t => .character [some t]
  | .integer n => .numeric [some (decimalInt n)]
  | .double n => .numeric [some (f.asCharacter n)]
  | .logical b => .logical [some b]

/-- A field of a processor; `std::to_string` prints six digits after the point. -/
def field (f : NumberFormat) : Scalar → FieldValue
  | .text t => .text [some t]
  | .integer n => .int [n]
  | .double n => .real [(f.asCharacter n, decimalInt n ++ ".000000".toList)]
  | .logical b => .lgl [some b]

end Scalar

def Record.entry (f : NumberFormat) : Record → ProcessorEntry
  | .named fields => .processor (fields.map fun x => (x.1, x.2.field f))
  | .bare => .unnamed

namespace Setting

def argument (f : NumberFormat) : Setting → ConstraintArg
  | .scalar s => s.argument f
  | .processors records => .list (records.map (·.entry f))

/-- What is to be read of a setting. -/
def meaning : Setting → ParsedValue
  | .scalar s => .text s.spelled
  | .processors records => .processors (records.map (·.fields.map fun x => (x.1, x.2.spelled)))

end Setting

/-- The constraint string of a function with these constraints. -/
def constraintStringOf (f : NumberFormat) (settings : List (Text × Setting)) :
    Except Failure Text :=
  constraintString (constraint [] (settings.map fun x => (x.1, x.2.argument f)))

/-- What is read of the constraint string is what the constraints were. -/
def ReadsBack (f : NumberFormat) (settings : List (Text × Setting)) : Prop :=
  ∃ s, constraintStringOf f settings = .ok s ∧
    parseConstraints s = some (settings.map fun x => (camelCase x.1, x.2.meaning))

def separators : Text := [':', ';', ',', '\x7b', '\x7d', '[', ']']

/-- A text without any separator. -/
def Unseparated (t : Text) : Prop := ∀ c ∈ t, c ∉ separators

def Scalar.Unseparated : Scalar → Prop
  | .text t => Submission.Unseparated t
  | _ => True

def Setting.Unseparated : Setting → Prop
  | .scalar s => s.Unseparated
  | .processors records => ∀ record ∈ records, ∀ x ∈ record.fields,
      Submission.Unseparated x.1 ∧ x.2.Unseparated

/-- Constraints under names, whose keys and texts have no separators. -/
structure WellNamed (settings : List (Text × Setting)) : Prop where
  named : ∀ x ∈ settings, x.1 ≠ []
  keys : ∀ x ∈ settings, Unseparated (camelCase x.1)
  texts : ∀ x ∈ settings, x.2.Unseparated

/-- R writes the number in digits alone. -/
def NumberFormat.InDigits (f : NumberFormat) (n : ℤ) : Prop :=
  if n.natAbs < 10 ^ 15 then (decimalInt n).length ≤ (scientific n).length
  else f.asCharacter n = decimalInt n

/-- The records have names, if only none. -/
def Setting.Named : Setting → Prop
  | .scalar _ => True
  | .processors records => ∀ record ∈ records, record ≠ .bare

/-- Numbers that R writes in digits; a list that is not empty, of records with names and without
doubles. -/
def Setting.Spelled (f : NumberFormat) : Setting → Prop
  | .scalar (.double n) => f.InDigits n
  | .scalar _ => True
  | .processors records => records ≠ [] ∧ ∀ record ∈ records, record ≠ .bare ∧
      ∀ x ∈ record.fields, ∀ n, x.2 ≠ .double n

theorem decimalInt_numeric {n : ℤ} {c : Char} (h : c ∈ decimalInt n) :
    c.isDigit = true ∨ c = '-' := by
  unfold decimalInt at h
  split at h
  · obtain rfl | h := List.mem_cons.mp h
    · exact .inr rfl
    · exact .inl (isDigit_decimal h)
  · exact .inl (isDigit_decimal h)

theorem unseparated_of_all {t : Text} (h : (t.all fun c => !separators.contains c) = true) :
    Unseparated t := by
  intro c hc
  simpa using List.all_eq_true.mp h c hc

/-- Numbers are spelled without separators. -/
theorem unseparated_of_numeric {t : Text}
    (h : ∀ c ∈ t, c.isDigit = true ∨ c ∈ ['-', '.', 'e', '+']) : Unseparated t := by
  intro c hc hsep
  have hnone :
      separators.all (fun c => !(c.isDigit || ['-', '.', 'e', '+'].contains c)) = true := rfl
  have hc' := List.all_eq_true.mp hnone c hsep
  simp only [Bool.not_eq_true', Bool.or_eq_false_iff, List.contains_eq_mem,
    decide_eq_false_iff_not] at hc'
  obtain hdigit | hsign := h c hc
  · rw [hc'.1] at hdigit
    contradiction
  · exact hc'.2 hsign

theorem unseparated_decimalInt (n : ℤ) : Unseparated (decimalInt n) := by
  apply unseparated_of_numeric
  intro c hc
  obtain h | h := decimalInt_numeric hc
  · exact .inl h
  · exact .inr (h ▸ List.mem_cons_self)

theorem unseparated_append {t u : Text} (ht : Unseparated t) (hu : Unseparated u) :
    Unseparated (t ++ u) := by
  intro c hc
  exact (List.mem_append.mp hc).elim (ht c) (hu c)

theorem e_mem_scientific (n : ℤ) : 'e' ∈ scientific n := by
  unfold scientific
  simp

/-- A double is written in digits alone if and only if that is what `as.character` gives. -/
theorem inDigits_iff (f : NumberFormat) (n : ℤ) :
    f.InDigits n ↔ f.asCharacter n = decimalInt n := by
  unfold NumberFormat.InDigits
  split
  next hn =>
    rw [f.short n hn, shorter]
    split
    next hle => exact iff_of_true hle rfl
    next hlt =>
      apply iff_of_false hlt
      intro h
      have he : 'e' ∈ decimalInt n := h ▸ e_mem_scientific n
      obtain h | h := decimalInt_numeric he
      · exact absurd h (by decide)
      · exact absurd h (by decide)
  next => rfl

namespace Scalar

/-- A scalar as `as.character` or `constraint` spells it. -/
def shown (f : NumberFormat) : Scalar → Text
  | .double n => f.asCharacter n
  | s => s.spelled

/-- A scalar as it is printed in a record. -/
def shownInRecord : Scalar → Text
  | .double n => decimalInt n ++ ".000000".toList
  | s => s.spelled

variable {f : NumberFormat} {s : Scalar}

theorem storedValue_argument : storedValue (s.argument f) = some (.text [some (s.shown f)]) := by
  cases s <;> rfl

theorem print_field : (s.field f).print = .ok s.shownInRecord := by
  cases s with
  | logical b => cases b <;> rfl
  | text t => rfl
  | integer n => rfl
  | double n => rfl

/-- A double in a record is printed with a fraction. -/
theorem shownInRecord_eq_spelled_iff : s.shownInRecord = s.spelled ↔ ∀ n, s ≠ .double n := by
  cases s with
  | double n =>
    apply iff_of_false
    · intro h
      have hlen := congrArg List.length h
      simp [shownInRecord, spelled] at hlen
    · exact fun h => h n rfl
  | text t => simp [shownInRecord]
  | integer n => simp [shownInRecord]
  | logical b => simp [shownInRecord]

theorem unseparated_spelled (h : s.Unseparated) : Submission.Unseparated s.spelled := by
  cases s with
  | text t => exact h
  | integer n => exact unseparated_decimalInt n
  | double n => exact unseparated_decimalInt n
  | logical b => cases b <;> exact unseparated_of_all rfl

theorem unseparated_shown (h : s.Unseparated) : Submission.Unseparated (s.shown f) := by
  cases s with
  | double n => exact unseparated_of_numeric (f.numeric n)
  | text t => exact unseparated_spelled h
  | integer n => exact unseparated_spelled h
  | logical b => exact unseparated_spelled h

theorem unseparated_shownInRecord (h : s.Unseparated) :
    Submission.Unseparated s.shownInRecord := by
  cases s with
  | double n =>
    exact unseparated_append (unseparated_decimalInt n) (unseparated_of_all rfl)
  | text t => exact unseparated_spelled h
  | integer n => exact unseparated_spelled h
  | logical b => exact unseparated_spelled h

end Scalar

end RCompss.Submission
