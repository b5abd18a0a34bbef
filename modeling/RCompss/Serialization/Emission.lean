import RCompss.Serialization.Writer

/-! The pieces in which the writer hands its output to a stream, whatever the stream does. -/
namespace RCompss.Serialization
open RCompss.Library

/-- Pieces written one after the other: all of them, or those in front of an element that
has no encoding. -/
structure Emission where
  pieces : List Bytes
  complete : Bool

namespace Emission

def bytes (e : Emission) : Bytes := e.pieces.flatten

def of (pieces : List Bytes) : Emission := ⟨pieces, true⟩

/-- A type without a tag. -/
def unsupported : Emission := ⟨[], false⟩

/-- One emission behind another, unless that stops short. -/
def andThen (e e' : Emission) : Emission :=
  if e.complete then ⟨e.pieces ++ e'.pieces, e'.complete⟩ else e

theorem bytes_of (pieces : List Bytes) : (of pieces).bytes = pieces.flatten := rfl

theorem complete_andThen (e e' : Emission) :
    (e.andThen e').complete = (e.complete && e'.complete) := by
  obtain ⟨pieces, _ | _⟩ := e <;> rfl

theorem bytes_andThen {e : Emission} (h : e.complete = true) (e' : Emission) :
    (e.andThen e').bytes = e.bytes ++ e'.bytes := by
  rw [andThen, if_pos h]
  exact List.flatten_append

theorem andThen_of_incomplete {e : Emission} (h : e.complete = false) (e' : Emission) :
    e.andThen e' = e := by
  rw [andThen, h]
  rfl

theorem length_andThen (e e' : Emission) : e.bytes.length ≤ (e.andThen e').bytes.length := by
  rcases h : e.complete with _ | _
  · rw [andThen_of_incomplete h]
  · rw [bytes_andThen h, List.length_append]
    omega

section
variable {σ : Type} [OutStream σ]

/-- Write the pieces; raise where they stop short. -/
def emit (e : Emission) : WriteM σ Unit := do
  e.pieces.forM writeBytes
  if !e.complete then
    throw .unsupportedType

theorem emit_of (pieces : List Bytes) :
    ((of pieces).emit : WriteM σ Unit) = pieces.forM writeBytes := by
  simp [emit, of]

theorem emit_andThen (e e' : Emission) :
    ((e.andThen e').emit : WriteM σ Unit) = e.emit >>= fun _ => e'.emit := by
  obtain ⟨pieces, complete⟩ := e
  cases complete with
  | true => simp [andThen, emit, List.forM_append, bind_assoc]
  | false =>
    simp only [andThen, emit, Bool.false_eq_true, if_false, Bool.not_false, if_true, bind_assoc]
    rfl

end

/-- The bytes of an emission that does not stop short. -/
def whole (e : Emission) : Option Bytes := if e.complete then some e.bytes else none

theorem whole_eq_some {e : Emission} {b : Bytes} :
    e.whole = some b ↔ e.complete = true ∧ e.bytes = b := by
  unfold whole
  cases e.complete <;> simp

theorem whole_eq_none {e : Emission} : e.whole = none ↔ e.complete = false := by
  unfold whole
  cases e.complete <;> simp

theorem whole_of (pieces : List Bytes) : (of pieces).whole = some pieces.flatten := rfl

theorem whole_andThen (e e' : Emission) :
    (e.andThen e').whole = do return (← e.whole) ++ (← e'.whole) := by
  obtain ⟨pieces, _ | _⟩ := e <;> obtain ⟨pieces', _ | _⟩ := e' <;>
    simp [andThen, whole, bytes]

end Emission

def stringPieces : CharSXP → List Bytes
  | none => [u32 (-1 : BitVec 32).toNat]
  | some s => if 0 < s.bytes.length then [u32 s.bytes.length, s.bytes] else [u32 s.bytes.length]

def atomicPieces : Atomic → List Bytes
  | .lgl d => u32 ValueType.kLogical.toU32 :: u32 d.length :: d.map fun w => u32 w.toNat
  | .int d => u32 ValueType.kInteger.toU32 :: u32 d.length :: d.map fun w => u32 w.toNat
  | .real d => [u32 ValueType.kReal.toU32, u32 d.length, d.flatMap fun w => toLE 8 w.toNat]
  | .str d => u32 ValueType.kString.toU32 :: u32 d.length :: d.flatMap stringPieces

/-- Names the writer finds on a list: a character vector of the same length. -/
def listNames (v : SEXP) : Option (List CharSXP) :=
  if SEXP.isNames v.length (v.attribOf R_NamesSymbol) then
    some (stringElts (v.attribOf R_NamesSymbol))
  else none

def namesPieces (version : ℕ) (names : Option (List CharSXP)) : List Bytes :=
  if version < 2 then [] else
    match names with
    | none => [u32 0]
    | some ns => u32 1 :: ns.flatMap stringPieces

mutual

def emission (version : ℕ) (v : SEXP) : Emission :=
  if _h : v.attribOf R_DimSymbol ≠ .nil then
    (Emission.of [u32 ValueType.kArray.toU32]).andThen
      ((emission version (v.attribOf R_DimSymbol)).andThen
        ((emission version (v.attribOf R_DimNamesSymbol)).andThen (valueEmission version v)))
  else valueEmission version v
termination_by 2 * sizeOf v + 1
decreasing_by
  all_goals try omega
  all_goals
    have hd := SEXP.sizeOf_attribOf_lt (t := R_DimSymbol) _h
    have hn := SEXP.sizeOf_attribOf_lt (t := R_DimNamesSymbol) _h
    omega

def valueEmission (version : ℕ) (v : SEXP) : Emission :=
  match v with
  | .nil => .of [u32 ValueType.kNil.toU32]
  | .atom d _ => .of (atomicPieces d)
  | .vec xs as =>
      (Emission.of (u32 ValueType.kList.toU32 :: u32 xs.length ::
        namesPieces version (listNames (.vec xs as)))).andThen (elementsEmission version xs)
  | .other .. => .unsupported
termination_by 2 * sizeOf v

def elementsEmission (version : ℕ) (xs : List SEXP) : Emission :=
  match xs with
  | [] => .of []
  | x :: xs => (emission version x).andThen (elementsEmission version xs)
termination_by 2 * sizeOf xs

end

section
variable {σ : Type} [OutStream σ]

theorem forM_pieces {α : Type} {f : α → WriteM σ Unit} {g : α → List Bytes}
    (h : ∀ a, f a = (g a).forM writeBytes) (as : List α) :
    as.forM f = (as.flatMap g).forM writeBytes := by
  induction as with
  | nil => rfl
  | cons a as ih =>
    simp only [List.forM_eq_forM] at h ih ⊢
    rw [List.flatMap_cons, List.forM_append, List.forM_cons, h, ih]

theorem forM_writeI32 (ws : List (BitVec 32)) :
    (ws.forM writeI32 : WriteM σ Unit) = (ws.map fun w => u32 w.toNat).forM writeBytes := by
  rw [forM_pieces (g := fun w => [u32 w.toNat]) fun w => by simp [writeI32, u32]]
  rw [← List.map_eq_flatMap]

/-- `LENGTH` of a string is never negative, so `writeString` always goes on to its bytes. -/
theorem writeString_pieces (s : CharSXP) :
    (writeString s : WriteM σ Unit) = (stringPieces s).forM writeBytes := by
  cases s with
  | none => simp [writeString, stringPieces, writeI32, u32]
  | some str =>
    simp only [writeString, stringPieces, str.toInt_ofNat_length, str.toNat_ofNat_length,
      writeI32, u32]
    rw [if_neg (by omega)]
    by_cases h : 0 < str.bytes.length
    · simp [h]
    · simp [h]

theorem writeNames_pieces (v : SEXP) :
    (writeNames v : WriteM σ Unit) = (namesPieces 2 (listNames v)).forM writeBytes := by
  unfold writeNames listNames
  by_cases h : SEXP.isNames v.length (v.attribOf R_NamesSymbol) = true
  · simp [h, namesPieces, writeU32, u32, forM_pieces writeString_pieces]
  · simp [h, namesPieces, writeU32, u32]

/-- Version 1 has no names section. -/
theorem optionalNames_pieces (v : SEXP) (version : ℕ) :
    (if 2 ≤ version then writeNames v else pure () : WriteM σ Unit) =
      (namesPieces version (listNames v)).forM writeBytes := by
  by_cases h : 2 ≤ version
  · rw [if_pos h, writeNames_pieces]
    simp [namesPieces, show ¬ version < 2 by omega]
  · rw [if_neg h]
    simp [namesPieces, show version < 2 by omega]

theorem writeValue_atom (d : Atomic) (as : List (Symbol × SEXP)) (version : ℕ) :
    (writeValue (.atom d as) version : WriteM σ Unit) = (Emission.of (atomicPieces d)).emit := by
  rw [Emission.emit_of]
  cases d <;>
    simp [writeValue, atomicPieces, writeU32, u32, forM_writeI32, forM_pieces writeString_pieces]

theorem writeValue_vec (xs : List SEXP) (as : List (Symbol × SEXP)) (version : ℕ) :
    (writeValue (.vec xs as) version : WriteM σ Unit) =
      writeU32 ValueType.kList.toU32 >>= fun _ => writeU32 xs.length >>= fun _ =>
        (if 2 ≤ version then writeNames (.vec xs as) else pure ()) >>= fun _ =>
          writeElements xs version := by
  rw [writeValue]
  by_cases h : 2 ≤ version <;> simp [h]

theorem writeSEXP_array {v : SEXP} (h : v.attribOf R_DimSymbol ≠ .nil) (version : ℕ) :
    (writeSEXP v version : WriteM σ Unit) = (do
      writeU32 ValueType.kArray.toU32
      writeSEXP (v.attribOf R_DimSymbol) version
      writeSEXP (v.attribOf R_DimNamesSymbol) version
      writeValue v version) := by
  rw [writeSEXP]
  simp [h]

theorem writeSEXP_plain {v : SEXP} (h : v.attribOf R_DimSymbol = .nil) (version : ℕ) :
    (writeSEXP v version : WriteM σ Unit) = writeValue v version := by
  rw [writeSEXP]
  simp [h]

mutual

/-- The writer writes the emission of its value. -/
theorem writeSEXP_emission (v : SEXP) (version : ℕ) :
    (writeSEXP v version : WriteM σ Unit) = (emission version v).emit := by
  rw [emission]
  split
  next h =>
    rw [writeSEXP_array h, writeSEXP_emission (v.attribOf R_DimSymbol) version,
      writeSEXP_emission (v.attribOf R_DimNamesSymbol) version, writeValue_emission v version,
      Emission.emit_andThen, Emission.emit_andThen, Emission.emit_andThen, Emission.emit_of]
    simp [writeU32, u32]
  next h =>
    rw [writeSEXP_plain (by simpa using h)]
    exact writeValue_emission v version
termination_by 2 * sizeOf v + 1
decreasing_by
  all_goals try omega
  all_goals
    have hlt := fun t => SEXP.sizeOf_attribOf_lt (t := t) ‹v.attribOf R_DimSymbol ≠ .nil›
    have hd := hlt R_DimSymbol
    have hn := hlt R_DimNamesSymbol
    omega

theorem writeValue_emission (v : SEXP) (version : ℕ) :
    (writeValue v version : WriteM σ Unit) = (valueEmission version v).emit := by
  cases v with
  | nil => simp [writeValue, valueEmission, Emission.emit_of, writeU32, u32]
  | atom d as => rw [valueEmission, writeValue_atom]
  | vec xs as =>
    rw [writeValue_vec, valueEmission, Emission.emit_andThen, Emission.emit_of,
      optionalNames_pieces, writeElements_emission xs version]
    simp [writeU32, u32]
  | other o as =>
    rw [writeValue, valueEmission]
    rfl
termination_by 2 * sizeOf v

theorem writeElements_emission (xs : List SEXP) (version : ℕ) :
    (writeElements xs version : WriteM σ Unit) = (elementsEmission version xs).emit := by
  cases xs with
  | nil =>
    rw [writeElements, elementsEmission, Emission.emit_of]
    rfl
  | cons x xs =>
    rw [writeElements, elementsEmission, Emission.emit_andThen, writeSEXP_emission x version,
      writeElements_emission xs version]
termination_by 2 * sizeOf xs

end

/-- A whole file: magic and version in front. -/
def fileEmission (v : SEXP) : Emission :=
  (Emission.of [u32 kMagic, u32 kVersion]).andThen (emission kVersion v)

theorem serializeSEXP_emission (v : SEXP) :
    (serializeSEXP v : WriteM σ Unit) = (fileEmission v).emit := by
  rw [serializeSEXP, fileEmission, Emission.emit_andThen, Emission.emit_of,
    writeSEXP_emission v kVersion]
  simp [writeU32, u32]

end
end RCompss.Serialization
