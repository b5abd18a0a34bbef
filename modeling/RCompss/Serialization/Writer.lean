import RCompss.Library.Exec
import RCompss.Serialization.Format

/-! The writer of `Serialization.cpp`, over any output stream. -/
namespace RCompss.Serialization
open RCompss.Library

/-- What the writer uses of `std::ofstream`. -/
class OutStream (σ : Type) where
  write : σ → Bytes → σ
  good : σ → Bool

/-- A file whose writes all reach it. -/
structure ByteFile where
  bytes : Bytes
  deriving DecidableEq

instance : OutStream ByteFile where
  write out data := ⟨out.bytes ++ data⟩
  good _ := true

abbrev WriteM (σ : Type) := Exec σ SerError

section
variable {σ : Type} [OutStream σ]

def writeBytes (data : Bytes) : WriteM σ Unit := do
  modify fun out => OutStream.write out data
  if !OutStream.good (← get) then
    throw .writeFailed

def writeU32 (value : ℕ) : WriteM σ Unit := writeBytes (toLE 4 value)

def writeI32 (value : BitVec 32) : WriteM σ Unit := writeBytes (toLE 4 value.toNat)

def writeString : CharSXP → WriteM σ Unit
  | none => writeI32 (-1)
  | some str => do
      let len := BitVec.ofNat 32 str.bytes.length
      if len.toInt < 0 then
        throw .invalidStringLength
      writeI32 len
      if 0 < len.toInt then
        writeBytes (str.bytes.take len.toNat)

/-- The strings of a character vector. -/
def stringElts : SEXP → List CharSXP
  | .atom (.str ns) _ => ns
  | _ => []

/-- The names section of a list. `Rf_getAttrib(names)` would show the dimnames of a
one-dimensional array; only an attribute of that tag counts here. -/
def writeNames (object : SEXP) : WriteM σ Unit := do
  let nms := object.attribOf R_NamesSymbol
  let hasNames := SEXP.isNames object.length nms
  writeU32 (if hasNames then 1 else 0)
  if hasNames then
    (stringElts nms).forM writeString

mutual

def writeSEXP (object : SEXP) (formatVersion : ℕ) : WriteM σ Unit := do
  let dims := object.getAttrib R_DimSymbol
  if _h : dims ≠ .nil then
    writeU32 ValueType.kArray.toU32
    writeSEXP dims formatVersion
    writeSEXP (object.getAttrib R_DimNamesSymbol) formatVersion
  -- the underlying value, without wrapping the same array again
  writeValue object formatVersion
termination_by 2 * sizeOf object + 1
decreasing_by
  · omega
  all_goals
    have hlt := fun t => SEXP.sizeOf_attribOf_lt (t := t) (by simpa [dims] using _h)
    have hd := hlt R_DimSymbol
    have hn := hlt R_DimNamesSymbol
    simp only [SEXP.getAttrib_dim, SEXP.getAttrib_dimnames]
    omega

def writeValue (object : SEXP) (formatVersion : ℕ) : WriteM σ Unit := do
  match object with
  | .nil => writeU32 ValueType.kNil.toU32
  | .atom (.lgl data) _ =>
      writeU32 ValueType.kLogical.toU32
      writeU32 data.length
      data.forM writeI32
  | .atom (.int data) _ =>
      writeU32 ValueType.kInteger.toU32
      writeU32 data.length
      data.forM writeI32
  | .atom (.real data) _ =>
      writeU32 ValueType.kReal.toU32
      writeU32 data.length
      writeBytes (data.flatMap fun w => toLE 8 w.toNat)
  | .atom (.str data) _ =>
      writeU32 ValueType.kString.toU32
      writeU32 data.length
      data.forM writeString
  | .vec xs attrib =>
      writeU32 ValueType.kList.toU32
      writeU32 xs.length
      if 2 ≤ formatVersion then
        writeNames (.vec xs attrib)
      writeElements xs formatVersion
  | .other .. => throw .unsupportedType
termination_by 2 * sizeOf object

def writeElements (xs : List SEXP) (formatVersion : ℕ) : WriteM σ Unit := do
  match xs with
  | [] => pure ()
  | x :: xs =>
      writeSEXP x formatVersion
      writeElements xs formatVersion
termination_by 2 * sizeOf xs

end

/-- The stream is the one opened on the path; opening it is not modelled. -/
def serializeSEXP (object : SEXP) : WriteM σ Unit := do
  writeU32 kMagic
  writeU32 kVersion
  writeSEXP object kVersion

end

end RCompss.Serialization
