import RCompss.Serialization.Retained

/-! What the headers of a file count. A header of 32 bits that wraps counts the first
elements of its vector only; the bytes of the others lie behind them. -/
namespace RCompss.Serialization
open RCompss.Library SEXP

theorem u32_mod (n : ℕ) : u32 (n % 2 ^ 32) = u32 n := by
  have h (k m : ℕ) : toLE k (m % 256 ^ k) = toLE k m := by
    induction k generalizing m with
    | zero => rfl
    | succ k ih =>
      have hlow : UInt8.ofNat (m % 256 ^ (k + 1)) = UInt8.ofNat m := by
        apply UInt8.toNat_inj.mp
        rw [UInt8.toNat_ofNat', UInt8.toNat_ofNat', pow_succ', Nat.mod_mul_right_mod]
      have hhigh : m % 256 ^ (k + 1) / 256 = m / 256 % 256 ^ k := by
        rw [pow_succ', Nat.mod_mul_right_div_self]
      rw [toLE, toLE, hlow, hhigh, ih]
  exact h 4 n

def Atomic.take (n : ℕ) : Atomic → Atomic
  | .lgl d => .lgl (d.take n)
  | .int d => .int (d.take n)
  | .real d => .real (d.take n)
  | .str d => .str (d.take n)

/-- The tag of an atomic vector, and the bytes of its elements. -/
def atomicTag : Atomic → ValueType
  | .lgl _ => .kLogical
  | .int _ => .kInteger
  | .real _ => .kReal
  | .str _ => .kString

def elementBytes : Atomic → List Bytes
  | .lgl d | .int d => d.map fun w => u32 w.toNat
  | .real d => d.map fun w => toLE 8 w.toNat
  | .str d => d.map encodeString

theorem encodeAtomic_elements (d : Atomic) : encodeAtomic d =
    u32 (atomicTag d).toU32 ++ u32 d.length ++ (elementBytes d).flatten := by
  cases d <;> simp [encodeAtomic, atomicTag, elementBytes, Atomic.length, List.flatMap_def]

theorem length_take (d : Atomic) (n : ℕ) : (Atomic.take n d).length = min n d.length := by
  cases d <;> exact List.length_take

theorem elementBytes_take (d : Atomic) (n : ℕ) :
    elementBytes (Atomic.take n d) = (elementBytes d).take n := by
  cases d <;> simp [Atomic.take, elementBytes, List.map_take]

namespace Payload

/-- The part of a payload that its outermost header counts. Of an array that is the header
of its data; the names of a list stand behind the header in full, so that a named list has
no such part. -/
def counted : Payload → Payload
  | .atom d => .atom (Atomic.take (d.length % 2 ^ 32) d)
  | .list none xs => .list none (xs.take (xs.length % 2 ^ 32))
  | .array dims dimnames value => .array dims dimnames (counted value)
  | p => p

theorem encodeList_append (version : ℕ) (xs ys : List Payload) :
    encodeList version (xs ++ ys) = encodeList version xs ++ encodeList version ys := by
  induction xs with
  | nil => rfl
  | cons x xs ih => rw [List.cons_append, encodeList, encodeList, ih, List.append_assoc]

/-- The encoding begins with that of the counted part. -/
theorem encode_counted (version : ℕ) (p : Payload) :
    ∃ rest, p.encode version = p.counted.encode version ++ rest := by
  induction p using Payload.induction with
  | nil => exact ⟨[], (List.append_nil _).symm⟩
  | atom d =>
    refine ⟨((elementBytes d).drop (d.length % 2 ^ 32)).flatten, ?_⟩
    have hle : d.length % 2 ^ 32 ≤ d.length := Nat.mod_le _ _
    have htag : atomicTag (Atomic.take (d.length % 2 ^ 32) d) = atomicTag d := by cases d <;> rfl
    rw [counted, encode, encode, encodeAtomic_elements, encodeAtomic_elements, htag, length_take,
      Nat.min_eq_left hle, elementBytes_take, u32_mod, List.append_assoc, List.append_assoc,
      List.append_assoc, ← List.flatten_append, List.take_append_drop]
  | list names xs ih =>
    cases names with
    | some ns => exact ⟨[], (List.append_nil _).symm⟩
    | none =>
      refine ⟨encodeList version (xs.drop (xs.length % 2 ^ 32)), ?_⟩
      have hlen : (xs.take (xs.length % 2 ^ 32)).length = xs.length % 2 ^ 32 := by
        rw [List.length_take, Nat.min_eq_left (Nat.mod_le _ _)]
      rw [counted, encode, encode, hlen, u32_mod, List.append_assoc _ (encodeList _ _),
        ← encodeList_append, List.take_append_drop]
  | array dims dimnames value _ _ ih =>
    obtain ⟨rest, hrest⟩ := ih
    refine ⟨rest, ?_⟩
    rw [counted, encode, encode, hrest]
    simp only [List.append_assoc]

end Payload

theorem fileBytes_counted (version : ℕ) (p : Payload) :
    ∃ rest, fileBytes version p = fileBytes version p.counted ++ rest := by
  obtain ⟨rest, hrest⟩ := p.encode_counted version
  exact ⟨rest, by rw [fileBytes, fileBytes, hrest, ← List.append_assoc]⟩

/-- Of a long vector the reader gives back the elements that the wrapped header still
counts. -/
theorem unserializeSEXP_counted (coerce : Coercion) {p : Payload} {w : SEXP}
    (hfits : p.counted.fits = true) (hw : p.counted.toSEXP coerce = .ok w) :
    ∃ st, exec (unserializeSEXP coerce) (.open (fileBytes kVersion p)) = (.ok w, st) := by
  obtain ⟨rest, hrest⟩ := fileBytes_counted kVersion p
  rw [hrest]
  exact ⟨_, unserializeSEXP_file (show kMinReadVersion ≤ kVersion by decide) le_rfl hfits
    (Payload.readableAt_kVersion _) hw rest⟩

mutual

/-- The writer's length headers do not wrap. In front of a type without a tag it stops, so
what lies behind has no header. -/
def headersFit (v : SEXP) : Bool :=
  if _h : v.attribOf R_DimSymbol ≠ .nil then
    headersFit (v.attribOf R_DimSymbol) && headersFit (v.attribOf R_DimNamesSymbol) &&
      valueHeadersFit v
  else valueHeadersFit v
termination_by 2 * sizeOf v + 1
decreasing_by
  all_goals try omega
  all_goals
    have hd := SEXP.sizeOf_attribOf_lt (t := R_DimSymbol) _h
    have hn := SEXP.sizeOf_attribOf_lt (t := R_DimNamesSymbol) _h
    omega

def valueHeadersFit (v : SEXP) : Bool :=
  match v with
  | .atom d _ => decide (d.length < 2 ^ 32)
  | .vec xs _ => decide (xs.length < 2 ^ 32) && elementsHeadersFit xs
  | .nil | .other .. => true
termination_by 2 * sizeOf v

def elementsHeadersFit (xs : List SEXP) : Bool :=
  match xs with
  | [] => true
  | x :: xs => headersFit x && ((payload x).isNone || elementsHeadersFit xs)
termination_by 2 * sizeOf xs

end

theorem headersFit_plain {v : SEXP} (h : v.attribOf R_DimSymbol = .nil) :
    headersFit v = valueHeadersFit v := by
  rw [headersFit, dif_neg (not_not.mpr h)]

theorem headersFit_array {v : SEXP} (h : v.attribOf R_DimSymbol ≠ .nil) :
    headersFit v = true ↔ headersFit (v.attribOf R_DimSymbol) = true ∧
      headersFit (v.attribOf R_DimNamesSymbol) = true ∧ valueHeadersFit v = true := by
  rw [headersFit, dif_pos h, Bool.and_eq_true, Bool.and_eq_true, and_assoc]

mutual

theorem headersFit_of_short (v : SEXP) (hs : v.everywhere shortHere = true) :
    headersFit v = true := by
  by_cases hd : v.attribOf R_DimSymbol = .nil
  · rw [headersFit_plain hd]
    exact valueHeadersFit_of_short v hs
  · exact (headersFit_array hd).mpr
      ⟨headersFit_of_short _ (everywhere_attribOf hs rfl _),
        headersFit_of_short _ (everywhere_attribOf hs rfl _), valueHeadersFit_of_short v hs⟩
termination_by 2 * sizeOf v + 1
decreasing_by
  all_goals try omega
  all_goals
    have hlt := fun t => SEXP.sizeOf_attribOf_lt (t := t) hd
    have hd := hlt R_DimSymbol
    have hn := hlt R_DimNamesSymbol
    omega

theorem valueHeadersFit_of_short (v : SEXP) (hs : v.everywhere shortHere = true) :
    valueHeadersFit v = true := by
  cases v with
  | nil | other o as => rw [valueHeadersFit]
  | atom d as =>
    rw [valueHeadersFit]
    exact (everywhere_iff.mp hs).1
  | vec xs as =>
    rw [valueHeadersFit, Bool.and_eq_true]
    exact ⟨(everywhere_iff.mp hs).1,
      elementsHeadersFit_of_short xs fun x hx => everywhere_element hs hx⟩
termination_by 2 * sizeOf v

theorem elementsHeadersFit_of_short (xs : List SEXP)
    (hs : ∀ x ∈ xs, x.everywhere shortHere = true) : elementsHeadersFit xs = true := by
  cases xs with
  | nil => rw [elementsHeadersFit]
  | cons x xs =>
    rw [elementsHeadersFit, Bool.and_eq_true, Bool.or_eq_true]
    exact ⟨headersFit_of_short x (hs x (by simp)),
      .inr (elementsHeadersFit_of_short xs fun y hy => hs y (by simp [hy]))⟩
termination_by 2 * sizeOf xs

end

theorem payloadList_of_forall₂ {xs : List SEXP} {ps : List Payload}
    (h : List.Forall₂ (fun v p => payload v = some p) xs ps) : payloadList xs = some ps := by
  induction h with
  | nil => rw [payloadList]
  | cons hx _ ih =>
    rw [payloadList, hx, ih]
    rfl

theorem fitsList_of_headersFit {xs : List SEXP} {ps : List Payload}
    (h : List.Forall₂ (fun v p => payload v = some p ∧ (headersFit v = true → p.fits = true)) xs ps)
    (hs : elementsHeadersFit xs = true) : Payload.fitsList ps = true := by
  induction h with
  | nil => rfl
  | cons hx _ ih =>
    rw [elementsHeadersFit, hx.1, Option.isNone_some, Bool.false_or, Bool.and_eq_true] at hs
    rw [Payload.fitsList, hx.2 hs.1, ih hs.2]
    rfl

/-- Payloads found in values whose headers do not wrap fit them. -/
theorem fits_of_headersFit {v : SEXP} {p : Payload} (hs : headersFit v = true)
    (hp : payload v = some p) : p.fits = true := by
  let P (v : SEXP) (p : Payload) := payload v = some p ∧ (headersFit v = true → p.fits = true)
  let Q (v : SEXP) (p : Payload) :=
    payloadValue v = some p ∧ (valueHeadersFit v = true → p.fits = true)
  refine (payload_induction (P := P) (Q := Q) ?_ v hp).2 hs
  constructor
  case nil => exact ⟨by rw [payloadValue], fun _ => rfl⟩
  case atom =>
    intro d as
    exact ⟨by rw [payloadValue], fun hs => by rwa [valueHeadersFit] at hs⟩
  case list =>
    intro xs as ps hps
    have hlist := payloadList_of_forall₂ (hps.imp fun _ _ h => h.1)
    refine ⟨by rw [payloadValue, hlist]; rfl, fun hs => ?_⟩
    rw [valueHeadersFit, Bool.and_eq_true, decide_eq_true_eq, hps.length_eq] at hs
    have hnames : ((listNames (.vec xs as)).all fun ns => ns.length == ps.length) = true := by
      rw [Option.all_eq_true]
      intro ns hns
      simpa [SEXP.length, hps.length_eq] using length_listNames ns hns
    simpa [Payload.fits, fitsList_of_headersFit hps hs.2, hnames] using hs.1
  case plain =>
    rintro v p hd ⟨hv, hfits⟩
    exact ⟨by rw [payload_plain hd, hv], fun hs => hfits (by rwa [headersFit_plain hd] at hs)⟩
  case array =>
    rintro v d dn p hd hp ⟨hpd, hfd⟩ ⟨hpn, hfn⟩ ⟨-, hfv⟩
    refine ⟨by rw [payload, dif_pos hd, hpd, hpn, hp]; rfl, fun hs => ?_⟩
    obtain ⟨hsd, hsn, hsv⟩ := (headersFit_array hd).mp hs
    simp [Payload.fits, hfd hsd, hfn hsn, hfv hsv]

end RCompss.Serialization
