import RCompss.Library.Exec
import RCompss.Serialization.Format

/-! The reader of `Serialization.cpp`. Its state is the unread input, the counter it
threads by reference, and R's protection stack as far as the reader uses it. -/
namespace RCompss.Serialization
open RCompss.Library

structure ReadState where
  input : Bytes
  protectCount : ℕ
  /-- R's protection stack, counting the reader's entries. -/
  stack : StackMeter
  /-- Calls of `readSEXP` so far. -/
  calls : ℕ
  deriving DecidableEq

/-- A freshly opened file. -/
def ReadState.open (input : Bytes) : ReadState := ⟨input, 0, .empty, 0⟩

abbrev ReadM := Exec ReadState SerError

/-- `std::ifstream::read`; a short read takes what is left and fails. -/
def readBytes (size : ℕ) : ReadM Bytes := do
  let st ← get
  if size ≤ st.input.length then
    set { st with input := st.input.drop size }
    return st.input.take size
  else
    set { st with input := [] }
    throw .readFailed

def readU32 : ReadM ℕ := do return ofLE (← readBytes 4)

def readI32 : ReadM (BitVec 32) := do return .ofNat 32 (ofLE (← readBytes 4))

/-- `Rf_mkCharLen`. -/
def mkCharLen (buffer : Bytes) : ReadM CharSXP :=
  if h : (0 : UInt8) ∉ buffer ∧ buffer.length < 2 ^ 31 then
    return some ⟨buffer, h.1, h.2⟩
  else throw .embeddedNul

def readString : ReadM CharSXP := do
  let len ← readI32
  if len = -1 then
    return none
  if len.toInt < 0 then
    throw .invalidSerializedStringLength
  let buffer ← if 0 < len.toInt then readBytes len.toNat else pure []
  mkCharLen buffer

def PROTECT : ReadM Unit := modify fun st => { st with stack := st.stack.push }

def UNPROTECT (n : ℕ) : ReadM Unit := modify fun st => { st with stack := st.stack.pop n }

/-- `++protect_count` after a `PROTECT`. -/
def protectCounted : ReadM Unit := do
  PROTECT
  modify fun st => { st with protectCount := st.protectCount + 1 }

/-- `Rf_setAttrib`, whose R errors leave the reader like its own. -/
def rfSetAttrib (coerce : SEXP.Coercion) (v : SEXP) (s : Symbol) (x : SEXP) : ReadM SEXP :=
  match v.setAttrib coerce s x with
  | .ok w => pure w
  | .error message => throw (.rError message)

/-- Read the names of a list of `len` elements and set them; the attributes it gets. -/
def readNames (coerce : SEXP.Coercion) (len : ℕ) : ReadM (List (Symbol × SEXP)) := do
  let hasNames ← readU32
  if 1 < hasNames then
    throw .invalidNameFlag
  if hasNames ≠ 0 then
    protectCounted
    let nms ← repeatM readString len
    let list ← rfSetAttrib coerce (.vec (List.replicate len .nil) []) R_NamesSymbol
      (.atom (.str nms) [])
    UNPROTECT 1
    modify fun st => { st with protectCount := st.protectCount - 1 }
    return list.attrib
  else
    return []

/-- The switch of `readSEXP` on the tag read; `next` is the recursive call. -/
def readTagged (coerce : SEXP.Coercion) (formatVersion : ℕ) (next : ReadM SEXP) :
    Option ValueType → ReadM SEXP
  | some .kArray => do
      if formatVersion < 3 then
        throw .arrayVersion
      let dims ← next
      let dimnames ← next
      let value ← next
      let value ← rfSetAttrib coerce value R_DimSymbol dims
      rfSetAttrib coerce value R_DimNamesSymbol dimnames
  | some .kNil => return .nil
  | some .kLogical => do
      let len ← readU32
      protectCounted
      return .atom (.lgl (← repeatM readI32 len)) []
  | some .kInteger => do
      let len ← readU32
      protectCounted
      return .atom (.int (← repeatM readI32 len)) []
  | some .kReal => do
      let len ← readU32
      protectCounted
      let data ← readBytes (len * 8)
      return .atom (.real ((ofWords 8 len data).map (BitVec.ofNat 64))) []
  | some .kString => do
      let len ← readU32
      protectCounted
      return .atom (.str (← repeatM readString len)) []
  | some .kList => do
      let len ← readU32
      protectCounted
      let attrib ← (if 2 ≤ formatVersion then readNames coerce len else pure [])
      return .vec (← repeatM next len) attrib
  | none => throw .unsupportedValueType

/-- `readSEXP` under a bound on the depth of its recursion. -/
def readSEXPWithin (coerce : SEXP.Coercion) (formatVersion : ℕ) : ℕ → ReadM SEXP
  | 0 => throw .outOfFuel
  | fuel + 1 => do
      modify fun st => { st with calls := st.calls + 1 }
      let tag ← readU32
      readTagged coerce formatVersion (readSEXPWithin coerce formatVersion fuel)
        (ValueType.ofU32 tag)

/-- Every call takes a tag of four bytes, so the unread input bounds the recursion. -/
def readSEXP (coerce : SEXP.Coercion) (formatVersion : ℕ) : ReadM SEXP := do
  readSEXPWithin coerce formatVersion ((← get).input.length + 1)

/-- The stream is the one opened on the path; opening it is not modelled. -/
def unserializeSEXP (coerce : SEXP.Coercion) : ReadM SEXP := do
  let magic ← readU32
  if magic ≠ kMagic then
    throw .invalidMagic
  let version ← readU32
  if version < kMinReadVersion ∨ kVersion < version then
    throw .unsupportedVersion
  let result ← readSEXP coerce version
  UNPROTECT (← get).protectCount
  return result

end RCompss.Serialization
