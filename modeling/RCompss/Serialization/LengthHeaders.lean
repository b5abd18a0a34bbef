import RCompss.Serialization.Counted
import RCompss.Serialization.ShortData

/-! The length header of a vector against the elements written behind it. The header has
32 bits, the length of an R vector may need 53. -/
namespace RCompss.Serialization
open RCompss.Library SEXP

/-- An atomic vector or a list without attributes. What is nested in a list is any value. -/
inductive PlainVector where
  | atom (data : Atomic) (wellFormed : (SEXP.atom data []).WellFormed)
  | list (elements : List SEXP) (wellFormed : (SEXP.vec elements []).WellFormed)
      (extents : (SEXP.vec elements []).everywhere fewExtents = true)

namespace PlainVector

def value : PlainVector → SEXP
  | .atom data _ => .atom data []
  | .list elements _ _ => .vec elements []

theorem wellFormed : ∀ v : PlainVector, v.value.WellFormed
  | .atom _ h | .list _ h _ => h

theorem extents : ∀ v : PlainVector, v.value.everywhere fewExtents = true
  | .atom .. => rfl
  | .list _ _ h => h

end PlainVector

/-- The writes of a vector's elements, one for each. -/
def elementWrites : SEXP → List (WriteM ByteFile Unit)
  | .atom (.lgl data) _ | .atom (.int data) _ => data.map writeI32
  | .atom (.real data) _ => data.map fun w => writeBytes (toLE 8 w.toNat)
  | .atom (.str data) _ => data.map writeString
  | .vec xs _ => xs.map fun x => writeSEXP x kVersion
  | _ => []

/-- The file's length header counts the elements that stand in it. Between them a list has
its names section. -/
def HeaderCounts (v : SEXP) (file : Bytes) : Prop :=
  ∃ (tag header names : Bytes) (elements : List Bytes),
    tag.length = 4 ∧ header.length = 4 ∧ List.Forall₂ Writes (elementWrites v) elements ∧
    file = u32 kMagic ++ u32 kVersion ++ tag ++ header ++ names ++ elements.flatten ∧
    ofLE header = elements.length

/-- The file gives back every element, and of a nested vector every element in turn. -/
def ReadsBack (coerce : Coercion) (v : SEXP) (file : Bytes) : Prop :=
  ∃ st, exec (unserializeSEXP coerce) (.open file) = (.ok (retained v), st)

/-- The vector is rejected, or its header counts its elements and all of them can be read. -/
def LengthKept (coerce : Coercion) (v : SEXP) : Prop :=
  (∀ out : ByteFile, ∃ e out', exec (serializeSEXP v) out = (.error e, out')) ∨
    ∃ file, Writes (serializeSEXP v) file ∧ HeaderCounts v file ∧ ReadsBack coerce v file

theorem Writes.unique {x : WriteM ByteFile Unit} {b c : Bytes} (hb : Writes x b)
    (hc : Writes x c) : b = c := by
  have h := (hb ⟨[]⟩).symm.trans (hc ⟨[]⟩)
  simpa using h

theorem writes_writeBytes (b : Bytes) : Writes (writeBytes b) b := by
  intro out
  have h := exec_forM_writeBytes [b] out
  simpa using h

theorem writes_writeI32 (w : BitVec 32) : Writes (writeI32 w) (u32 w.toNat) :=
  writes_writeBytes _

theorem writes_writeString (s : CharSXP) : Writes (writeString s) (encodeString s) := by
  intro out
  rw [writeString_pieces, exec_forM_writeBytes, flatten_stringPieces]

theorem length_elementWrites (v : PlainVector) :
    (elementWrites v.value).length = v.value.length := by
  rcases v with ⟨data, _⟩ | ⟨xs, _⟩
  · cases data <;> simp [PlainVector.value, elementWrites, SEXP.length, Atomic.length]
  · simp [PlainVector.value, elementWrites, SEXP.length]

/-- Each element of an accepted list is written as the payload found in it. -/
theorem writes_elements {xs : List SEXP} {ps : List Payload} (h : payloadList xs = some ps) :
    List.Forall₂ Writes (xs.map fun x => writeSEXP x kVersion)
      (ps.map (Payload.encode kVersion)) := by
  induction xs generalizing ps with
  | nil =>
    rw [payloadList] at h
    cases h
    exact .nil
  | cons x xs ih =>
    rw [payloadList] at h
    simp only [Option.bind_eq_bind, Option.bind_eq_some_iff, Option.pure_def,
      Option.some.injEq] at h
    obtain ⟨p, hp, qs, hqs, rfl⟩ := h
    have hx := writeSEXP_payload x kVersion
    rw [hp] at hx
    exact .cons hx (ih hqs)

theorem encodeList_flatten (version : ℕ) (ps : List Payload) :
    Payload.encodeList version ps = (ps.map (Payload.encode version)).flatten := by
  induction ps with
  | nil => rfl
  | cons p ps ih => rw [Payload.encodeList, ih, List.map_cons, List.flatten_cons]

theorem forall₂_map {α : Type} {f : α → WriteM ByteFile Unit} {g : α → Bytes}
    (h : ∀ a, Writes (f a) (g a)) (as : List α) :
    List.Forall₂ Writes (as.map f) (as.map g) := by
  induction as with
  | nil => exact .nil
  | cons a as ih => exact .cons (h a) ih

theorem writes_elementBytes (d : Atomic) (as : List (Symbol × SEXP)) :
    List.Forall₂ Writes (elementWrites (.atom d as)) (elementBytes d) := by
  cases d with
  | lgl d | int d => exact forall₂_map writes_writeI32 d
  | real d => exact forall₂_map (fun w => writes_writeBytes (toLE 8 (BitVec.toNat w))) d
  | str d => exact forall₂_map writes_writeString d

/-- Behind its tag an encoded vector has the low bits of its length, a names section and its
elements. -/
theorem encode_plain (v : PlainVector) {p : Payload} (h : payload v.value = some p) :
    ∃ (tag names : Bytes) (elements : List Bytes), tag.length = 4 ∧
      List.Forall₂ Writes (elementWrites v.value) elements ∧
      p.encode kVersion = tag ++ u32 v.value.length ++ names ++ elements.flatten := by
  rcases v with ⟨d, _⟩ | ⟨xs, _⟩
  · rw [PlainVector.value, payload_plain rfl, payloadValue] at h
    cases h
    have hbytes : (Payload.atom d).encode kVersion =
        u32 (atomicTag d).toU32 ++ u32 d.length ++ [] ++ (elementBytes d).flatten := by
      rw [Payload.encode, encodeAtomic_elements, List.append_nil]
    exact ⟨_, _, _, length_toLE 4 _, writes_elementBytes d [], hbytes⟩
  · rw [PlainVector.value, payload_plain rfl, payloadValue] at h
    simp only [Option.bind_eq_bind, Option.bind_eq_some_iff, Option.pure_def,
      Option.some.injEq] at h
    obtain ⟨ps, hps, rfl⟩ := h
    have hwrites := writes_elements hps
    have hlen : ps.length = xs.length := by simpa using hwrites.length_eq.symm
    have hbytes : (Payload.list (listNames (.vec xs [])) ps).encode kVersion =
        u32 ValueType.kList.toU32 ++ u32 xs.length ++
          encodeNames kVersion (listNames (.vec xs [])) ++
          (ps.map (Payload.encode kVersion)).flatten := by
      rw [Payload.encode, encodeList_flatten, hlen]
    exact ⟨_, _, _, length_toLE 4 _, hwrites, hbytes⟩

/-- A header of four bytes gives back a length exactly when it is below `2^32`. -/
theorem ofLE_u32_eq_iff (n : ℕ) : ofLE (u32 n) = n ↔ n < 2 ^ 32 := by
  have h : ofLE (u32 n) = n % 2 ^ 32 := ofLE_toLE 4 n
  omega

/-- The header of an accepted vector counts its elements exactly when it does not wrap. -/
theorem headerCounts_iff (v : PlainVector) {p : Payload} (h : payload v.value = some p) :
    HeaderCounts v.value (fileBytes kVersion p) ↔ v.value.length < 2 ^ 32 := by
  obtain ⟨tag, names, elements, htag, hwrites, hencode⟩ := encode_plain v h
  have hcount : elements.length = v.value.length := by
    rw [← hwrites.length_eq, length_elementWrites]
  have hfile : fileBytes kVersion p = u32 kMagic ++ u32 kVersion ++ tag ++ u32 v.value.length ++
      names ++ elements.flatten := by
    rw [fileBytes, hencode]
    simp only [List.append_assoc]
  rw [← ofLE_u32_eq_iff, hfile]
  constructor
  · intro hcounts
    obtain ⟨tag', header, names', elements', htag', hheader, hwrites', hfile', hlen⟩ := hcounts
    have hsame : u32 kMagic ++ u32 kVersion ++ tag ++ u32 v.value.length =
        u32 kMagic ++ u32 kVersion ++ tag' ++ header := by
      have hprefix := congrArg (List.take 16) hfile'
      rw [List.append_assoc _ names, List.append_assoc _ names'] at hprefix
      rwa [List.take_left' (by simp [u32, htag]), List.take_left' (by simp [u32, htag', hheader])]
        at hprefix
    have hhead : u32 v.value.length = header :=
      (List.append_inj' hsame (by simp [u32, hheader])).2
    rw [hhead, hlen, ← hwrites'.length_eq, length_elementWrites]
  · intro hlen
    exact ⟨tag, _, names, elements, htag, length_toLE 4 _, hwrites, rfl, hlen.trans hcount.symm⟩

/-- The bytes of an accepted vector give it back exactly when nothing in it is long. -/
theorem readsBack_iff {coerce : Coercion} (hcoerce : LeavesData coerce) (v : PlainVector)
    {p : Payload} (h : payload v.value = some p) :
    ReadsBack coerce v.value (fileBytes kVersion p) ↔ shortData v.value = true := by
  constructor
  · rintro ⟨st, hread⟩
    have hyields := unserializeSEXP_yields hcoerce (.open (fileBytes kVersion p))
    rw [Meets, hread] at hyields
    rwa [← shortData_retained]
  · intro hshort
    have hfits := fits_of_shortData v.wellFormed v.extents hshort h
    have hread := unserializeSEXP_file (show kMinReadVersion ≤ kVersion by decide) le_rfl hfits
      p.readableAt_kVersion (payload_toSEXP coerce v.wellFormed h) []
    rw [List.append_nil] at hread
    exact ⟨_, hread⟩

theorem length_lt_of_shortData (v : PlainVector) (h : shortData v.value = true) :
    v.value.length < 2 ^ 32 := by
  rcases v with ⟨d, _⟩ | ⟨xs, _, _⟩
  · rw [PlainVector.value, shortData, decide_eq_true_eq] at h
    exact h
  · exact (shortData_vec.mp h).1

/-- A vector is rejected, or its length header counts the elements written and all of them
are read back, exactly when some type in it is not supported or no vector in it has `2^32`
elements or more. -/
theorem lengthKept_iff {coerce : Coercion} (hcoerce : LeavesData coerce) (v : PlainVector) :
    LengthKept coerce v.value ↔ payload v.value = none ∨ shortData v.value = true := by
  rcases hp : payload v.value with _ | p
  · have hthrows : LengthKept coerce v.value := by
      apply Or.inl
      intro out
      obtain ⟨out', hout⟩ := serializeSEXP_unsupported hp out
      exact ⟨_, out', hout⟩
    simp [hthrows]
  · have hwrite := serializeSEXP_writes hp
    constructor
    · intro hkept
      apply Or.inr
      rcases hkept with hthrows | ⟨file, hfile, _, hreads⟩
      · obtain ⟨e, out', hout⟩ := hthrows ⟨[]⟩
        rw [hwrite] at hout
        cases hout
      · rw [hfile.unique hwrite] at hreads
        exact (readsBack_iff hcoerce v hp).mp hreads
    · intro hcond
      have hshort : shortData v.value = true := hcond.resolve_left (by simp)
      exact .inr ⟨_, hwrite, (headerCounts_iff v hp).mpr (length_lt_of_shortData v hshort),
        (readsBack_iff hcoerce v hp).mpr hshort⟩

/-- `logical(n)`. -/
def logical (n : ℕ) (h : n ≤ 2 ^ 52) : PlainVector :=
  .atom (.lgl (List.replicate n 0)) (by
    simpa [SEXP.WellFormed, everywhere, everywhereAttrib, wellFormedHere, isVector, attribOf,
      attrib, isNil, SEXP.length, Atomic.length] using h)

theorem payload_logical (n : ℕ) (h : n ≤ 2 ^ 52) :
    payload (logical n h).value = some (.atom (.lgl (List.replicate n 0))) := by
  rw [logical, PlainVector.value, payload_plain rfl, payloadValue]

theorem leavesData_installAttrib : LeavesData fun v s x => .ok (v.installAttrib s x) := by
  rintro v s x _ ⟨⟩
  exact ⟨_, rfl⟩

/-- `list(1L, list(c(TRUE, FALSE)))`. -/
def nestedList : PlainVector :=
  .list [.atom (.int [1]) [], .vec [.atom (.lgl [1, 0]) []] []] (by decide) (by decide)

theorem nestedList_kept :
    LengthKept (fun v s x => .ok (v.installAttrib s x)) nestedList.value :=
  (lengthKept_iff leavesData_installAttrib nestedList).mpr (.inr (by decide))

theorem counted_logical (n : ℕ) :
    (Payload.atom (.lgl (List.replicate n 0))).counted =
      .atom (.lgl (List.replicate (n % 2 ^ 32) 0)) := by
  rw [Payload.counted, Atomic.length, List.length_replicate, Atomic.take, List.take_replicate,
    Nat.min_eq_left (Nat.mod_le _ _)]

/-- A long logical vector is neither rejected nor kept: its file gives back the elements that
the wrapped header counts. -/
theorem long_logical_cut (coerce : Coercion) {n : ℕ} (h : n ≤ 2 ^ 52) (hn : 2 ^ 32 ≤ n) :
    ¬ LengthKept coerce (logical n h).value ∧ ∃ file st,
      Writes (serializeSEXP (logical n h).value) file ∧
        exec (unserializeSEXP coerce) (.open file) =
          (.ok (.atom (.lgl (List.replicate (n % 2 ^ 32) 0)) []), st) := by
  have hp := payload_logical n h
  have hwrite := serializeSEXP_writes hp
  have hlen : (logical n h).value.length = n := List.length_replicate
  constructor
  · rintro (hthrows | ⟨file, hfile, hcounts, _⟩)
    · obtain ⟨e, out', hout⟩ := hthrows ⟨[]⟩
      rw [hwrite] at hout
      cases hout
    · rw [hfile.unique hwrite, headerCounts_iff _ hp, hlen] at hcounts
      omega
  · have hmod : n % 2 ^ 32 < 2 ^ 32 := Nat.mod_lt _ (by decide)
    have hcut := counted_logical n
    have hread := unserializeSEXP_counted coerce (p := .atom (.lgl (List.replicate n 0)))
      (w := .atom (.lgl (List.replicate (n % 2 ^ 32) 0)) [])
      (by rw [hcut, Payload.fits, Atomic.length, List.length_replicate, decide_eq_true_eq]
          exact hmod)
      (by rw [hcut]; rfl)
    obtain ⟨st, hread⟩ := hread
    exact ⟨_, st, hwrite, hread⟩

/-- `logical(2^32)` is written whole behind a header of zero, and read back empty. -/
theorem logical_header_wraps :
    ∃ v : PlainVector, v.value = .atom (.lgl (List.replicate (2 ^ 32) 0)) [] ∧
      ∀ coerce, ¬ LengthKept coerce v.value ∧ ∃ file st, Writes (serializeSEXP v.value) file ∧
        exec (unserializeSEXP coerce) (.open file) = (.ok (.atom (.lgl []) []), st) := by
  refine ⟨logical (2 ^ 32) (by norm_num), rfl, fun coerce => ?_⟩
  have hcut := long_logical_cut coerce (n := 2 ^ 32) (by norm_num) le_rfl
  rwa [Nat.mod_self, List.replicate_zero] at hcut

end RCompss.Serialization
