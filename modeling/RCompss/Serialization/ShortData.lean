import RCompss.Serialization.Consumption
import RCompss.Serialization.Retained

/-! Values without long vectors: their headers never wrap, and the reader builds no other. -/
namespace RCompss.Serialization
open RCompss.Library SEXP

mutual

/-- The vector and all that is nested in it have lengths below `2^32`. -/
def shortData : SEXP → Bool
  | .atom d _ => decide (d.length < 2 ^ 32)
  | .vec xs _ => decide (xs.length < 2 ^ 32) && shortDataList xs
  | .nil | .other .. => true

def shortDataList : List SEXP → Bool
  | [] => true
  | x :: xs => shortData x && shortDataList xs

end

theorem shortDataList_iff {xs : List SEXP} :
    shortDataList xs = true ↔ ∀ x ∈ xs, shortData x = true := by
  induction xs with
  | nil => simp [shortDataList]
  | cons x xs ih => simp [shortDataList, ih]

theorem shortData_vec {xs : List SEXP} {as : List (Symbol × SEXP)} :
    shortData (.vec xs as) = true ↔ xs.length < 2 ^ 32 ∧ ∀ x ∈ xs, shortData x = true := by
  rw [shortData, Bool.and_eq_true, decide_eq_true_eq, shortDataList_iff]

@[simp] theorem shortData_withAttrib (as : List (Symbol × SEXP)) (v : SEXP) :
    shortData (v.withAttrib as) = shortData v := by
  cases v <;> simp [withAttrib, shortData]

/-- A file changes no length. -/
theorem shortData_retained (v : SEXP) : shortData (retained v) = shortData v := by
  induction v using SEXP.induction with
  | nil => rw [retained_eq_nil.mpr rfl]
  | atom d as => rw [retained_atom, shortData, shortData]
  | vec xs as ih =>
    rw [retained_vec, Bool.eq_iff_iff, shortData_vec, shortData_vec, List.length_map,
      List.forall_mem_map]
    exact and_congr_right fun _ => forall₂_congr fun x hx => by rw [ih x hx]
  | other o as =>
    obtain ⟨bs, h⟩ := exists_retained (.other o as)
    rw [h, shortData_withAttrib, retainedValue, shortData, shortData]

/-- R takes the number of extents of an array as a machine integer. -/
def fewExtents (v : SEXP) : Bool := decide ((v.attribOf R_DimSymbol).length < 2 ^ 31)

theorem shortData_of_isDimName {d : BitVec 32} {x : SEXP} (h : isDimName d x = true) :
    shortData x = true := by
  have hd := d.isLt
  cases x with
  | nil | other o as => rfl
  | vec xs as => simp [isDimName] at h
  | atom a as =>
    cases a <;> simp only [isDimName, Bool.and_eq_true, beq_iff_eq, Bool.false_eq_true] at h
    rw [shortData, decide_eq_true_eq, Atomic.length]
    omega

theorem shortData_of_isDims {n : ℕ} {x : SEXP} (h : isDims n x = true)
    (hlen : x.length < 2 ^ 31) : x.extents.length < 2 ^ 31 ∧ shortData x = true := by
  cases x with
  | nil | vec xs as | other o as => simp [isDims, SEXP.extents] at h
  | atom a as =>
    cases a <;> simp [isDims, SEXP.extents] at h
    case int ds =>
      rw [SEXP.length, Atomic.length] at hlen
      refine ⟨hlen, ?_⟩
      rw [shortData, decide_eq_true_eq, Atomic.length]
      omega

/-- The extents and the dimnames of an array R can build are short. -/
theorem shortData_dims {v : SEXP} (hw : v.WellFormed) (hv : payloadValue v ≠ none)
    (hd : v.attribOf R_DimSymbol ≠ .nil) (hfew : fewExtents v = true) :
    shortData (v.attribOf R_DimSymbol) = true ∧ shortData (v.attribOf R_DimNamesSymbol) = true := by
  obtain ⟨hdims, hnames⟩ := wellFormed_dims hw hv hd
  rw [fewExtents, decide_eq_true_eq] at hfew
  have hshort := shortData_of_isDims hdims hfew
  refine ⟨hshort.2, ?_⟩
  rcases hnames with hnil | hnames
  · rw [hnil, shortData]
  · revert hnames
    cases v.attribOf R_DimNamesSymbol with
    | vec xs as =>
      intro hnames
      simp only [isDimNames, Bool.and_eq_true, beq_iff_eq, List.all_eq_true] at hnames
      obtain ⟨⟨-, hlen⟩, hall⟩ := hnames
      refine shortData_vec.mpr ⟨by omega, fun x hx => ?_⟩
      obtain ⟨i, hi, rfl⟩ := List.mem_iff_getElem.mp hx
      have hmem : ((v.attribOf R_DimSymbol).extents[i], xs[i]) ∈
          (v.attribOf R_DimSymbol).extents.zip xs := by
        rw [List.mem_iff_getElem]
        exact ⟨i, by simp; omega, by simp⟩
      exact shortData_of_isDimName (hall _ hmem)
    | nil | atom a as | other o as => simp [isDimNames]

theorem fitsList_of_shortData {xs : List SEXP} {ps : List Payload}
    (h : List.Forall₂ (fun v p => v.WellFormed → v.everywhere fewExtents = true →
      shortData v = true → p.fits = true) xs ps)
    (hw : ∀ x ∈ xs, x.WellFormed) (hfew : ∀ x ∈ xs, x.everywhere fewExtents = true)
    (hs : ∀ x ∈ xs, shortData x = true) : Payload.fitsList ps = true := by
  induction h with
  | nil => rfl
  | cons hx _ ih =>
    rw [Payload.fitsList, hx (hw _ (by simp)) (hfew _ (by simp)) (hs _ (by simp)),
      ih (fun y hy => hw y (by simp [hy])) (fun y hy => hfew y (by simp [hy]))
        fun y hy => hs y (by simp [hy])]
    rfl

/-- Payloads found in values whose data are short fit their headers. -/
theorem fits_of_shortData {v : SEXP} {p : Payload} (hw : v.WellFormed)
    (hfew : v.everywhere fewExtents = true) (hs : shortData v = true)
    (hp : payload v = some p) : p.fits = true := by
  let Fits (v : SEXP) (p : Payload) : Prop := v.WellFormed → v.everywhere fewExtents = true →
    shortData v = true → p.fits = true
  refine payload_induction (P := Fits) (Q := Fits) ?_ v hp hw hfew hs
  constructor
  case nil => exact fun _ _ _ => rfl
  case atom => exact fun d as _ _ hs => hs
  case list =>
    intro xs as ps hps hw hfew hs
    obtain ⟨hlen, helems⟩ := shortData_vec.mp hs
    have hlist := fitsList_of_shortData hps (fun x hx => everywhere_element hw hx)
      (fun x hx => everywhere_element hfew hx) helems
    have hnames : ((listNames (.vec xs as)).all fun ns => ns.length == ps.length) = true := by
      rw [Option.all_eq_true]
      intro ns hns
      simpa [SEXP.length, hps.length_eq] using length_listNames ns hns
    rw [hps.length_eq] at hlen
    simpa [Payload.fits, hlist, hnames] using hlen
  case plain => exact fun v p _ hv => hv
  case array =>
    intro v d dn p hd hp ihd ihn ihv hw hfew hs
    have hv : payloadValue v ≠ none := by simp [hp]
    obtain ⟨hdims, hnames⟩ := shortData_dims hw hv hd (everywhere_iff.mp hfew).1
    have hnil : fewExtents .nil = true := rfl
    simp only [Payload.fits, Bool.and_eq_true]
    exact ⟨⟨ihd (everywhere_attribOf hw rfl _) (everywhere_attribOf hfew hnil _) hdims,
      ihn (everywhere_attribOf hw rfl _) (everywhere_attribOf hfew hnil _) hnames⟩,
      ihv hw hfew hs⟩

/-- Setting an attribute leaves the data of a value. -/
def LeavesData (coerce : Coercion) : Prop :=
  ∀ v s x w, coerce v s x = .ok w → ∃ as, w = v.withAttrib as

theorem setAttrib_leavesData {coerce : Coercion} (h : LeavesData coerce) {v w x : SEXP}
    {s : Symbol} (hset : v.setAttrib coerce s x = .ok w) : shortData w = shortData v := by
  rw [setAttrib] at hset
  split at hset
  · cases hset
    rw [removeAttrib, shortData_withAttrib]
  · split at hset
    · cases hset
      rw [installAttrib, shortData_withAttrib]
      split
      · rw [removeAttrib, shortData_withAttrib]
      · rfl
    · obtain ⟨as, rfl⟩ := h _ _ _ _ hset
      rw [shortData_withAttrib]

/-- Whatever is unread, a result of the computation satisfies `P`. -/
def Yields {α : Type} (P : α → Prop) (x : ReadM α) : Prop :=
  ∀ st, Meets x st (fun a _ => P a) fun _ _ => True

section
variable {α β : Type} {P : α → Prop} {Q : β → Prop}

theorem Yields.pure {a : α} (h : P a) : Yields P (Pure.pure a) := fun _ => h

theorem yields_throw (e : SerError) : Yields P (throw e) := fun _ => trivial

theorem yields_any (x : ReadM α) : Yields (fun _ => True) x := by
  intro st
  unfold Meets
  rcases exec x st with ⟨e | a, t⟩ <;> trivial

theorem Yields.bind {x : ReadM α} {f : α → ReadM β} (hx : Yields P x)
    (hf : ∀ a, P a → Yields Q (f a)) : Yields Q (x >>= f) := by
  intro st
  rw [meets_bind]
  exact (hx st).imp fun a t ha => hf a ha t

theorem Yields.ite {c : Prop} [Decidable c] {x y : ReadM α} (hx : Yields P x)
    (hy : Yields P y) : Yields P (if c then x else y) := by
  split
  · exact hx
  · exact hy

/-- What follows does not depend on the result of the first part. -/
theorem Yields.after {x : ReadM α} {f : α → ReadM β} (hf : ∀ a, Yields Q (f a)) :
    Yields Q (x >>= f) := (yields_any x).bind fun a _ => hf a

theorem Yields.repeatM {x : ReadM α} (h : Yields P x) (n : ℕ) :
    Yields (fun as => as.length = n ∧ ∀ a ∈ as, P a) (Library.repeatM x n) := by
  induction n with
  | zero => exact Yields.pure ⟨rfl, by simp⟩
  | succ n ih =>
    refine h.bind fun a ha => ih.bind fun as has => Yields.pure ⟨?_, ?_⟩
    · rw [List.length_cons, has.1]
    · exact List.forall_mem_cons.mpr ⟨ha, has.2⟩

theorem readU32_yields : Yields (fun n => n < 2 ^ 32) readU32 := by
  intro st
  rw [readU32, meets_bind]
  refine (readBytes_meets 4 st).mono (fun bs t h => ?_) fun _ _ _ => trivial
  obtain ⟨hsize, rfl, -⟩ := h
  have hlt := ofLE_lt (st.input.take 4)
  rw [List.length_take, Nat.min_eq_left hsize] at hlt
  exact hlt

/-- A vector takes its length from a header. -/
theorem Yields.vector {f : ℕ → ReadM β} (hf : ∀ len < 2 ^ 32, Yields Q (f len)) :
    Yields Q (do
      let len ← readU32
      protectCounted
      f len) :=
  readU32_yields.bind fun len hlen => Yields.after fun _ => hf len hlen

end

theorem rfSetAttrib_yields {coerce : Coercion} (h : LeavesData coerce) {v : SEXP}
    (hv : shortData v = true) (s : Symbol) (x : SEXP) :
    Yields (fun w => shortData w = true) (rfSetAttrib coerce v s x) := by
  unfold rfSetAttrib
  split
  next w hset => exact Yields.pure ((setAttrib_leavesData h hset).trans hv)
  next => exact yields_throw _

theorem readTagged_yields {coerce : Coercion} (h : LeavesData coerce) {version : ℕ}
    {next : ReadM SEXP} (hnext : Yields (fun w => shortData w = true) next)
    (tag : Option ValueType) :
    Yields (fun w => shortData w = true) (readTagged coerce version next tag) := by
  rcases tag with _ | tag
  · exact yields_throw _
  cases tag with
  | kArray =>
    refine Yields.ite (yields_throw _) (Yields.after fun _ => Yields.after fun _ => ?_)
    exact hnext.bind fun v hv =>
      (rfSetAttrib_yields h hv _ _).bind fun w hw => rfSetAttrib_yields h hw _ _
  | kNil => exact Yields.pure rfl
  | kLogical | kInteger =>
    refine Yields.vector fun len hlen => ((yields_any _).repeatM len).bind fun data hdata => ?_
    exact Yields.pure (by rw [shortData, Atomic.length, hdata.1]; simpa using hlen)
  | kReal =>
    refine Yields.vector fun len hlen => Yields.after fun data => Yields.pure ?_
    rw [shortData, Atomic.length, List.length_map, length_ofWords]
    simpa using hlen
  | kString =>
    rw [readTagged]
    refine Yields.vector fun len hlen => ((yields_any _).repeatM len).bind fun data hdata => ?_
    exact Yields.pure (by rw [shortData, Atomic.length, hdata.1]; simpa using hlen)
  | kList =>
    rw [readTagged]
    refine Yields.vector fun len hlen => Yields.after fun as => (hnext.repeatM len).bind
      fun xs hxs => Yields.pure (shortData_vec.mpr ⟨?_, hxs.2⟩)
    rw [hxs.1]
    exact hlen

theorem readSEXPWithin_yields {coerce : Coercion} (h : LeavesData coerce) (version fuel : ℕ) :
    Yields (fun w => shortData w = true) (readSEXPWithin coerce version fuel) := by
  induction fuel with
  | zero => exact yields_throw _
  | succ fuel ih => exact Yields.after fun _ => Yields.after fun tag => readTagged_yields h ih _

/-- Every value that comes out of a file is short at every level. -/
theorem unserializeSEXP_yields {coerce : Coercion} (h : LeavesData coerce) :
    Yields (fun w => shortData w = true) (unserializeSEXP coerce) := by
  refine Yields.after fun magic => Yields.ite (yields_throw _) ?_
  refine Yields.after fun version => Yields.ite (yields_throw _) ?_
  have hread : Yields (fun w => shortData w = true) (readSEXP coerce version) :=
    Yields.after fun _ => readSEXPWithin_yields h version _
  exact hread.bind fun w hw => Yields.after fun _ => Yields.after fun _ => Yields.pure hw

end RCompss.Serialization
