import RCompss.Library.LittleEndian

/-! R values as the C API shows them: a vector or an opaque object, each with a pairlist
of attributes. -/
namespace RCompss
open RCompss.Library

/-- The bytes of an R string. R admits no NUL in it and at most `2^31 - 1` bytes. -/
structure RString where
  bytes : Bytes
  noNul : (0 : UInt8) ∉ bytes
  short : bytes.length < 2 ^ 31
  deriving DecidableEq

namespace RString

/-- A string's length is a positive machine integer. -/
@[simp] theorem toNat_ofNat_length (s : RString) :
    (BitVec.ofNat 32 s.bytes.length).toNat = s.bytes.length := by
  have hs := s.short
  rw [BitVec.toNat_ofNat, Nat.mod_eq_of_lt (by omega)]

@[simp] theorem toInt_ofNat_length (s : RString) :
    (BitVec.ofNat 32 s.bytes.length).toInt = s.bytes.length := by
  have hs := s.short
  rw [BitVec.toInt_eq_toNat_of_lt (by rw [toNat_ofNat_length]; omega), toNat_ofNat_length]

end RString

/-- An element of a character vector; `none` is `NA_STRING`. -/
abbrev CharSXP := Option RString

/-- Attribute tags. -/
abbrev Symbol := String

def R_NamesSymbol : Symbol := "names"
def R_DimSymbol : Symbol := "dim"
def R_DimNamesSymbol : Symbol := "dimnames"
def R_ClassSymbol : Symbol := "class"

/-- Data of an atomic vector. Logicals and integers are 32-bit words (NA is one of
them), doubles are their 64-bit patterns. -/
inductive Atomic where
  | lgl (data : List (BitVec 32))
  | int (data : List (BitVec 32))
  | real (data : List (BitVec 64))
  | str (data : List CharSXP)
  deriving DecidableEq

def Atomic.length : Atomic → ℕ
  | .lgl d | .int d => d.length
  | .real d => d.length
  | .str d => d.length

/-- `TYPEOF` of the objects that are neither `NULL` nor one of the vectors above. -/
inductive OpaqueType where
  | SYMSXP | LISTSXP | CLOSXP | ENVSXP | PROMSXP | LANGSXP | SPECIALSXP | BUILTINSXP
  | CPLXSXP | DOTSXP | EXPRSXP | BCODESXP | EXTPTRSXP | WEAKREFSXP | RAWSXP | S4SXP
  deriving DecidableEq, Repr

/-- An object whose contents the binding never looks into. `repr` tells two of them
apart; for a symbol it is its name, empty for `R_MissingArg`. -/
structure Opaque where
  type : OpaqueType
  repr : String
  length : ℕ
  deriving DecidableEq

inductive SEXP where
  | nil
  | atom (data : Atomic) (attrib : List (Symbol × SEXP))
  | vec (elements : List SEXP) (attrib : List (Symbol × SEXP))
  | other (object : Opaque) (attrib : List (Symbol × SEXP))

namespace SEXP

def attrib : SEXP → List (Symbol × SEXP)
  | .nil => []
  | .atom _ a | .vec _ a | .other _ a => a

/-- The same data under other attributes. -/
def withAttrib (as : List (Symbol × SEXP)) : SEXP → SEXP
  | .nil => .nil
  | .atom d _ => .atom d as
  | .vec xs _ => .vec xs as
  | .other o _ => .other o as

/-- `XLENGTH`. -/
def length : SEXP → ℕ
  | .nil => 0
  | .atom d _ => d.length
  | .vec xs _ => xs.length
  | .other o _ => o.length

def isNil : SEXP → Bool
  | .nil => true
  | _ => false

@[simp] theorem isNil_iff {v : SEXP} : v.isNil = true ↔ v = .nil := by cases v <;> simp [isNil]

@[simp] theorem isNil_eq_false {v : SEXP} : v.isNil = false ↔ v ≠ .nil := by
  cases v <;> simp [isNil]

instance (v : SEXP) : Decidable (v = .nil) := decidable_of_iff _ isNil_iff

/-- The elements of a list; other values have none. -/
def elements : SEXP → List SEXP
  | .vec xs _ => xs
  | _ => []

/-- Walk `ATTRIB(v)` to the first entry under a tag; `R_NilValue` when there is none. -/
def attribOf (v : SEXP) (s : Symbol) : SEXP := (v.attrib.lookup s).getD .nil

def isVector : SEXP → Bool
  | .nil => false
  | .atom .. | .vec .. => true
  | .other o _ => o.type == .CPLXSXP || o.type == .RAWSXP || o.type == .EXPRSXP

def isOneDimensionalArray (v : SEXP) : Bool :=
  v.isVector && match v.attribOf R_DimSymbol with
    | .atom (.int [_]) _ => true
    | _ => false

/-- `Rf_getAttrib`. Under `names` a one-dimensional array shows its first dimnames. -/
def getAttrib (v : SEXP) (s : Symbol) : SEXP :=
  if s = R_NamesSymbol ∧ v.isOneDimensionalArray ∧ ¬ (v.attribOf R_DimNamesSymbol).isNil then
    ((v.attribOf R_DimNamesSymbol).elements.head?).getD .nil
  else v.attribOf s

@[simp] theorem getAttrib_dim (v : SEXP) : v.getAttrib R_DimSymbol = v.attribOf R_DimSymbol := by
  simp [getAttrib, R_DimSymbol, R_NamesSymbol]

@[simp] theorem getAttrib_dimnames (v : SEXP) :
    v.getAttrib R_DimNamesSymbol = v.attribOf R_DimNamesSymbol := by
  simp [getAttrib, R_DimNamesSymbol, R_NamesSymbol]

theorem mem_of_lookup {s : Symbol} {as : List (Symbol × SEXP)} {x : SEXP}
    (h : as.lookup s = some x) : (s, x) ∈ as := by
  induction as with
  | nil => simp at h
  | cons p as ih =>
    obtain ⟨t, y⟩ := p
    rw [List.lookup_cons] at h
    split at h
    next ht => simp_all
    next => exact List.mem_cons_of_mem _ (ih h)

theorem attribOf_mem {v : SEXP} {s : Symbol} (h : v.attribOf s ≠ .nil) :
    (s, v.attribOf s) ∈ v.attrib := by
  unfold attribOf at h ⊢
  cases hl : v.attrib.lookup s with
  | none => simp [hl] at h
  | some x => simpa [hl] using mem_of_lookup hl

theorem attribOf_of_absent {v : SEXP} {s : Symbol} (h : ∀ p ∈ v.attrib, p.1 ≠ s) :
    v.attribOf s = .nil := by
  by_contra hs
  exact h _ (attribOf_mem hs) rfl

theorem sizeOf_attrib_lt {v x : SEXP} {s : Symbol} (h : (s, x) ∈ v.attrib) :
    sizeOf x < sizeOf v := by
  cases v with
  | nil => simp [attrib] at h
  | atom d as | vec d as | other d as =>
    have hm := List.sizeOf_lt_of_mem (show (s, x) ∈ as from h)
    simp only [Prod.mk.sizeOf_spec] at hm
    simp only [atom.sizeOf_spec, vec.sizeOf_spec, other.sizeOf_spec]
    omega

/-- An attribute is smaller than the value that carries it. -/
theorem sizeOf_attribOf_lt {v : SEXP} {s t : Symbol} (h : v.attribOf s ≠ .nil) :
    sizeOf (v.attribOf t) < sizeOf v := by
  by_cases ht : v.attribOf t = .nil
  · have hs := sizeOf_attrib_lt (attribOf_mem h)
    have hp : 1 ≤ sizeOf (v.attribOf s) := by cases v.attribOf s <;> simp +arith
    rw [ht, nil.sizeOf_spec]
    omega
  · exact sizeOf_attrib_lt (attribOf_mem ht)

theorem sizeOf_element_lt {v x : SEXP} (h : x ∈ v.elements) : sizeOf x < sizeOf v := by
  cases v <;> simp only [elements, List.not_mem_nil] at h
  have hm := List.sizeOf_lt_of_mem h
  simp only [vec.sizeOf_spec]
  omega

/-- Induction over a value, its elements and its attributes. -/
theorem induction {motive : SEXP → Prop} (nil : motive .nil)
    (atom : ∀ d as, (∀ p ∈ as, motive p.2) → motive (.atom d as))
    (vec : ∀ xs as, (∀ x ∈ xs, motive x) → (∀ p ∈ as, motive p.2) → motive (.vec xs as))
    (other : ∀ o as, (∀ p ∈ as, motive p.2) → motive (.other o as)) (v : SEXP) : motive v := by
  induction hn : sizeOf v using Nat.strong_induction_on generalizing v with
  | h n ih =>
    subst hn
    have hattr : ∀ p ∈ v.attrib, motive p.2 := fun p hp =>
      ih _ (sizeOf_attrib_lt (s := p.1) hp) p.2 rfl
    have helem : ∀ x ∈ v.elements, motive x := fun x hx => ih _ (sizeOf_element_lt hx) x rfl
    cases v with
    | nil => exact nil
    | atom d as => exact atom d as hattr
    | vec xs as => exact vec xs as helem hattr
    | other o as => exact other o as hattr

mutual

/-- `p` holds of the value, of its elements and attributes, and so on below. -/
def everywhere (p : SEXP → Bool) : SEXP → Bool
  | .nil => p .nil
  | .atom d as => p (.atom d as) && everywhereAttrib p as
  | .vec xs as => p (.vec xs as) && everywhereList p xs && everywhereAttrib p as
  | .other o as => p (.other o as) && everywhereAttrib p as

def everywhereList (p : SEXP → Bool) : List SEXP → Bool
  | [] => true
  | x :: xs => everywhere p x && everywhereList p xs

def everywhereAttrib (p : SEXP → Bool) : List (Symbol × SEXP) → Bool
  | [] => true
  | (_, x) :: as => everywhere p x && everywhereAttrib p as

end

theorem everywhereList_iff {p : SEXP → Bool} {xs : List SEXP} :
    everywhereList p xs = true ↔ ∀ x ∈ xs, everywhere p x = true := by
  induction xs with
  | nil => simp [everywhereList]
  | cons x xs ih => simp [everywhereList, ih]

theorem everywhereAttrib_iff {p : SEXP → Bool} {as : List (Symbol × SEXP)} :
    everywhereAttrib p as = true ↔ ∀ a ∈ as, everywhere p a.2 = true := by
  induction as with
  | nil => simp [everywhereAttrib]
  | cons a as ih =>
    obtain ⟨s, x⟩ := a
    simp [everywhereAttrib, ih]

theorem everywhere_iff {p : SEXP → Bool} {v : SEXP} :
    v.everywhere p = true ↔ p v = true ∧ (∀ x ∈ v.elements, x.everywhere p = true) ∧
      ∀ a ∈ v.attrib, a.2.everywhere p = true := by
  cases v <;>
    simp [everywhere, everywhereList_iff, everywhereAttrib_iff, elements, attrib, and_assoc]

theorem everywhere_element {p : SEXP → Bool} {xs : List SEXP} {as : List (Symbol × SEXP)}
    {x : SEXP} (h : (SEXP.vec xs as).everywhere p = true) (hx : x ∈ xs) :
    x.everywhere p = true :=
  (everywhere_iff.mp h).2.1 x hx

theorem everywhere_attribOf {p : SEXP → Bool} {v : SEXP} (h : v.everywhere p = true)
    (hnil : p .nil = true) (s : Symbol) : (v.attribOf s).everywhere p = true := by
  by_cases hs : v.attribOf s = .nil
  · rw [hs, everywhere, hnil]
  · exact (everywhere_iff.mp h).2.2 _ (attribOf_mem hs)

end SEXP
end RCompss
