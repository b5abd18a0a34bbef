import RCompss.Serialization.ReaderFormat
import RCompss.Serialization.WriterFormat

/-! What a file gives back: of every value the data, list names, dims and dimnames. -/
namespace RCompss.Serialization
open RCompss.Library

namespace Payload

mutual

/-- A payload is no deeper than its encoding is long. -/
theorem depth_le_length (p : Payload) (version : ℕ) : p.depth ≤ (p.encode version).length := by
  cases p with
  | nil => simp [depth, encode, u32]
  | atom d => cases d <;> simp [depth, encode, encodeAtomic, u32] <;> omega
  | list names xs =>
    have h := depthList_le_length xs version
    simp only [depth, encode, u32, List.length_append, length_toLE]
    omega
  | array dims dimnames value =>
    have hd := depth_le_length dims version
    have hn := depth_le_length dimnames version
    have hv := depth_le_length value version
    simp only [depth, encode, u32, List.length_append, length_toLE]
    omega
termination_by sizeOf p

theorem depthList_le_length (xs : List Payload) (version : ℕ) :
    depthList xs ≤ (encodeList version xs).length := by
  cases xs with
  | nil => simp [depthList]
  | cons x xs =>
    have hx := depth_le_length x version
    have hxs := depthList_le_length xs version
    simp only [depthList, encodeList, List.length_append]
    omega
termination_by sizeOf xs

end

end Payload

/-- The unread input always bounds the recursion enough. -/
theorem readSEXP_reads {coerce : SEXP.Coercion} {version : ℕ} {p : Payload} {w : SEXP}
    (hfits : p.fits = true) (hver : p.readableAt version = true)
    (hw : p.toSEXP coerce = .ok w) :
    Reads (readSEXP coerce version) (p.encode version) p.stackUse p.tags w := by
  intro st t h
  have hdepth := p.depth_le_length version
  have hfuel : p.depth ≤ st.input.length + 1 := by
    rw [h, List.length_append]
    omega
  rw [readSEXP, exec_bind_ok (exec_get st)]
  exact readSEXPWithin_reads p hfits hver hfuel hw st t h

/-- A file of a readable version gives back its value, and takes everything it pushed off
the protection stack. -/
theorem unserializeSEXP_file {coerce : SEXP.Coercion} {version : ℕ} {p : Payload} {w : SEXP}
    (hmin : kMinReadVersion ≤ version) (hmax : version ≤ kVersion) (hfits : p.fits = true)
    (hver : p.readableAt version = true) (hw : p.toSEXP coerce = .ok w) (t : Bytes) :
    exec (unserializeSEXP coerce) (.open (fileBytes version p ++ t)) = (.ok w,
      { input := t, protectCount := p.stackUse.net,
        stack := (StackMeter.empty.advance p.stackUse).pop p.stackUse.net,
        calls := p.tags }) := by
  have hv : version < 2 ^ 32 := by
    unfold kVersion at hmax
    omega
  have hbytes : fileBytes version p ++ t =
      u32 kMagic ++ (u32 version ++ (p.encode version ++ t)) := by simp [fileBytes]
  rw [unserializeSEXP, exec_bind_ok (readU32_reads (by decide) _ _ hbytes),
    if_neg (not_not.mpr rfl), exec_bind_ok (readU32_reads hv _ _ rfl), if_neg (by omega),
    exec_bind_ok (readSEXP_reads hfits hver hw _ _ rfl)]
  simp [exec_bind, UNPROTECT, ReadState.after, ReadState.open]

end RCompss.Serialization
