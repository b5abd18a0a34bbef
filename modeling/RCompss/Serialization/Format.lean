import RCompss.Library.StackUse
import RCompss.RValue.Attrib

/-! The payload format: tags, versions, errors, and the tree a file spells out. -/
namespace RCompss.Serialization
open RCompss.Library

def kMagic : ℕ := 0x52535343
/-- v1: unnamed lists. v2: list names. v3: arrays retain dim and dimnames. -/
def kVersion : ℕ := 3
def kMinReadVersion : ℕ := 1

inductive ValueType where
  | kNil | kLogical | kInteger | kReal | kString | kList | kArray
  deriving DecidableEq, Repr

namespace ValueType

def toU32 : ValueType → ℕ
  | kNil => 0
  | kLogical => 1
  | kInteger => 2
  | kReal => 3
  | kString => 4
  | kList => 5
  | kArray => 6

/-- `static_cast<ValueType>`; the values the switch has no case for are `none`. -/
def ofU32 : ℕ → Option ValueType
  | 0 => some kNil
  | 1 => some kLogical
  | 2 => some kInteger
  | 3 => some kReal
  | 4 => some kString
  | 5 => some kList
  | 6 => some kArray
  | _ => none

@[simp] theorem ofU32_toU32 (t : ValueType) : ofU32 t.toU32 = some t := by cases t <;> rfl

theorem toU32_lt (t : ValueType) : t.toU32 < 256 ^ 4 := by cases t <;> decide

end ValueType

/-- The `std::runtime_error`s of the serializer, and the R errors that pass through it. -/
inductive SerError where
  | writeFailed
  | readFailed
  | invalidStringLength
  | invalidSerializedStringLength
  | unsupportedType
  | arrayVersion
  | invalidNameFlag
  | unsupportedValueType
  | invalidMagic
  | unsupportedVersion
  | embeddedNul
  | rError (message : String)
  | outOfFuel
  deriving DecidableEq

def SerError.what : SerError → String
  | writeFailed => "Serialization write failed"
  | readFailed => "Serialization read failed"
  | invalidStringLength => "Invalid string length"
  | invalidSerializedStringLength => "Invalid serialized string length"
  | unsupportedType => "Unsupported SEXP type for C++ serialization"
  | arrayVersion => "Array encoding requires serialization version 3"
  | invalidNameFlag => "Invalid list name flag in serialized data"
  | unsupportedValueType => "Unsupported serialized value type"
  | invalidMagic => "Invalid serialization magic header"
  | unsupportedVersion => "Unsupported serialization version"
  | embeddedNul => "embedded nul in string"
  | rError message => message
  | outOfFuel => "recursion bound of the model"

/-- What a payload says: data, list names, and the array wrapper around any value. -/
inductive Payload where
  | nil
  | atom (data : Atomic)
  | list (names : Option (List CharSXP)) (elements : List Payload)
  | array (dims dimnames value : Payload)

/-- A length header or a tag: the low 32 bits. -/
def u32 (n : ℕ) : Bytes := toLE 4 n

def encodeString : CharSXP → Bytes
  | none => u32 (-1 : BitVec 32).toNat
  | some s => u32 s.bytes.length ++ s.bytes

def encodeAtomic : Atomic → Bytes
  | .lgl d => u32 ValueType.kLogical.toU32 ++ u32 d.length ++ d.flatMap fun w => u32 w.toNat
  | .int d => u32 ValueType.kInteger.toU32 ++ u32 d.length ++ d.flatMap fun w => u32 w.toNat
  | .real d => u32 ValueType.kReal.toU32 ++ u32 d.length ++ d.flatMap fun w => toLE 8 w.toNat
  | .str d => u32 ValueType.kString.toU32 ++ u32 d.length ++ d.flatMap encodeString

/-- The names section of a list; version 1 has none. -/
def encodeNames (version : ℕ) (names : Option (List CharSXP)) : Bytes :=
  if version < 2 then [] else
    match names with
    | none => u32 0
    | some ns => u32 1 ++ ns.flatMap encodeString

/-- The attributes of a list of `n` elements once `Rf_setAttrib` has given it names. -/
def attachNames (coerce : SEXP.Coercion) (n : ℕ) :
    Option (List CharSXP) → Except String (List (Symbol × SEXP))
  | none => .ok []
  | some ns => do
      let list ← SEXP.setAttrib coerce (.vec (List.replicate n .nil) []) R_NamesSymbol
        (.atom (.str ns) [])
      return list.attrib

namespace Payload

/-- Induction over a payload and its parts. -/
theorem induction {motive : Payload → Prop} (nil : motive .nil) (atom : ∀ d, motive (.atom d))
    (list : ∀ names xs, (∀ x ∈ xs, motive x) → motive (.list names xs))
    (array : ∀ d dn v, motive d → motive dn → motive v → motive (.array d dn v))
    (p : Payload) : motive p := by
  induction hn : sizeOf p using Nat.strong_induction_on generalizing p with
  | h n ih =>
    subst hn
    cases p with
    | nil => exact nil
    | atom d => exact atom d
    | list names xs =>
      refine list names xs fun x hx => ih _ ?_ x rfl
      have hlt := List.sizeOf_lt_of_mem hx
      simp only [Payload.list.sizeOf_spec]
      omega
    | array d dn v =>
      refine array d dn v (ih _ ?_ d rfl) (ih _ ?_ dn rfl) (ih _ ?_ v rfl) <;>
        (simp only [Payload.array.sizeOf_spec]; omega)

mutual

def encode (version : ℕ) : Payload → Bytes
  | .nil => u32 ValueType.kNil.toU32
  | .atom d => encodeAtomic d
  | .list names xs =>
      u32 ValueType.kList.toU32 ++ u32 xs.length ++ encodeNames version names ++
        encodeList version xs
  | .array dims dimnames value =>
      u32 ValueType.kArray.toU32 ++ encode version dims ++ encode version dimnames ++
        encode version value

def encodeList (version : ℕ) : List Payload → Bytes
  | [] => []
  | x :: xs => encode version x ++ encodeList version xs

end

mutual

/-- Headers hold the lengths, and names match the list they belong to. -/
def fits : Payload → Bool
  | .nil => true
  | .atom d => decide (d.length < 2 ^ 32)
  | .list names xs =>
      decide (xs.length < 2 ^ 32) && (names.all fun ns => ns.length == xs.length) && fitsList xs
  | .array dims dimnames value => fits dims && fits dimnames && fits value

def fitsList : List Payload → Bool
  | [] => true
  | x :: xs => fits x && fitsList xs

end

mutual

/-- Arrays need version 3 and list names version 2. -/
def readableAt (version : ℕ) : Payload → Bool
  | .nil | .atom _ => true
  | .list names xs => (names.isNone || decide (2 ≤ version)) && readableAtList version xs
  | .array dims dimnames value =>
      decide (3 ≤ version) && readableAt version dims && readableAt version dimnames &&
        readableAt version value

def readableAtList (version : ℕ) : List Payload → Bool
  | [] => true
  | x :: xs => readableAt version x && readableAtList version xs

end

mutual

/-- Tags in the encoding, one for each call of the reader. -/
def tags : Payload → ℕ
  | .nil | .atom _ => 1
  | .list _ xs => tagsList xs + 1
  | .array dims dimnames value => tags dims + tags dimnames + tags value + 1

def tagsList : List Payload → ℕ
  | [] => 0
  | x :: xs => tags x + tagsList xs

end

theorem readableAtList_iff {version : ℕ} {xs : List Payload} :
    readableAtList version xs = true ↔ ∀ x ∈ xs, readableAt version x = true := by
  induction xs with
  | nil => simp [readableAtList]
  | cons x xs ih => simp [readableAtList, ih]

/-- The current version has a place for everything a payload says. -/
theorem readableAt_kVersion (p : Payload) : p.readableAt kVersion = true := by
  induction p using Payload.induction with
  | nil | atom d => rfl
  | list names xs ih => simp [readableAt, readableAtList_iff.mpr ih, show 2 ≤ kVersion by decide]
  | array d dn v hd hn hv => simp [readableAt, hd, hn, hv, show 3 ≤ kVersion by decide]

mutual

/-- Levels of nesting. -/
def depth : Payload → ℕ
  | .nil | .atom _ => 1
  | .list _ xs => depthList xs + 1
  | .array dims dimnames value => max (depth dims) (max (depth dimnames) (depth value)) + 1

def depthList : List Payload → ℕ
  | [] => 0
  | x :: xs => max (depth x) (depthList xs)

end

mutual

/-- The value R holds after the reader set its attributes. -/
def toSEXP (coerce : SEXP.Coercion) : Payload → Except String SEXP
  | .nil => .ok .nil
  | .atom d => .ok (.atom d [])
  | .list names xs => do
      let attrib ← attachNames coerce xs.length names
      return .vec (← toSEXPList coerce xs) attrib
  | .array dims dimnames value => do
      let d ← toSEXP coerce dims
      let dn ← toSEXP coerce dimnames
      let v ← toSEXP coerce value
      let v ← SEXP.setAttrib coerce v R_DimSymbol d
      SEXP.setAttrib coerce v R_DimNamesSymbol dn

def toSEXPList (coerce : SEXP.Coercion) : List Payload → Except String (List SEXP)
  | [] => .ok []
  | x :: xs => do return (← toSEXP coerce x) :: (← toSEXPList coerce xs)

end

mutual

/-- What reading a payload does to R's protection stack: every vector stays on it, the
names of a list only until they are attached. -/
def stackUse : Payload → StackUse
  | .nil => 1
  | .atom _ => .push
  | .list names xs =>
      .push * (if names.isSome then .borrow else 1) * stackUseList xs
  | .array dims dimnames value => stackUse dims * stackUse dimnames * stackUse value

def stackUseList : List Payload → StackUse
  | [] => 1
  | x :: xs => stackUse x * stackUseList xs

end

end Payload
end RCompss.Serialization
