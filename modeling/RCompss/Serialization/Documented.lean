import RCompss.Serialization.Retained

/-! Values of the documented class, and the two halves of what the format promises. -/
namespace RCompss.Serialization
open RCompss.Library SEXP

/-- A possibly named list of components without attributes. -/
def isPlainDimNames (v : SEXP) : Bool :=
  v.attrib.all (fun p => p.1 == R_NamesSymbol) && v.elements.all fun x => x.attrib.isEmpty

/-- No opaque object, and no attribute but the names of lists, dims and dimnames, which
carry none of their own. -/
def documentedHere (v : SEXP) : Bool :=
  (match v with
    | .nil => true
    | .atom _ as => as.all fun p => [R_DimSymbol, R_DimNamesSymbol].contains p.1
    | .vec _ as => as.all fun p => [R_NamesSymbol, R_DimSymbol, R_DimNamesSymbol].contains p.1
    | .other .. => false) &&
  (v.attribOf R_NamesSymbol).attrib.isEmpty && (v.attribOf R_DimSymbol).attrib.isEmpty &&
  isPlainDimNames (v.attribOf R_DimNamesSymbol)

/-- The class of values the format documents. -/
structure DocumentedValue extends ShortValue where
  documented : value.everywhere documentedHere = true

theorem wellFormed_vector {v : SEXP} (h : v.WellFormed) (hv : v.isVector = true) :
    (v.attrib.map Prod.fst).Nodup ∧ (∀ p ∈ v.attrib, p.2 ≠ .nil) ∧
      (v.attribOf R_NamesSymbol = .nil ∨ isNames v.length (v.attribOf R_NamesSymbol) = true) ∧
      (v.attribOf R_DimSymbol = .nil → v.attribOf R_DimNamesSymbol = .nil) := by
  have hhere := (everywhere_iff.mp h).1
  simp only [wellFormedHere, hv, Bool.not_true, Bool.false_or, Bool.and_eq_true, Bool.or_eq_true,
    isNil_iff, decide_eq_true_eq, List.all_eq_true] at hhere
  obtain ⟨⟨⟨⟨⟨hnodup, hnil⟩, hnames⟩, -⟩, hdimnames⟩, -⟩ := hhere
  refine ⟨hnodup, fun p hp => by simpa using hnil p hp, hnames, fun hd => ?_⟩
  rw [hd] at hdimnames
  refine hdimnames.resolve_right fun h => ?_
  cases hx : v.attribOf R_DimNamesSymbol <;> simp [hx, isDimNames, extents] at h

theorem identical_plain_names {n : ℕ} {x : SEXP} (hx : isNames n x = true)
    (ha : x.attrib.isEmpty = true) : identical x (.atom (.str (stringElts x)) []) = true := by
  cases x with
  | atom d as =>
    obtain rfl : as = [] := by simpa [attrib] using ha
    cases d <;> simp [isNames] at hx
    simp [stringElts, identical, identicalAttrib]
  | nil | vec xs as | other o as => simp [isNames] at hx

theorem documented_not_other {o : Opaque} {as : List (Symbol × SEXP)} :
    (SEXP.other o as).everywhere documentedHere = false := by
  simp [everywhere, documentedHere]

theorem documented_tags {v : SEXP} (h : v.everywhere documentedHere = true) :
    ∀ p ∈ v.attrib, p.1 ∈ [R_NamesSymbol, R_DimSymbol, R_DimNamesSymbol] := by
  have hhere := (everywhere_iff.mp h).1
  intro p hp
  cases v with
  | nil => cases hp
  | atom d as =>
    simp only [documentedHere, Bool.and_eq_true, List.all_eq_true, List.contains_iff_mem] at hhere
    exact List.mem_cons_of_mem _ (hhere.1.1.1 p hp)
  | vec xs as =>
    simp only [documentedHere, Bool.and_eq_true, List.all_eq_true, List.contains_iff_mem] at hhere
    exact hhere.1.1.1 p hp
  | other o as => simp [documentedHere] at hhere

/-- Names stay on lists; a documented atomic vector has none. -/
theorem names_retained_identical {v : SEXP} (hw : v.WellFormed) (hv : v.isVector = true)
    (hdoc : v.everywhere documentedHere = true) :
    Option.Rel (fun x y => identical x y = true)
      (if v.attribOf R_NamesSymbol = .nil then none else some (v.attribOf R_NamesSymbol))
      ((retained v).attrib.lookup R_NamesSymbol) := by
  have hhere := (everywhere_iff.mp hdoc).1
  cases v with
  | nil => cases hv
  | atom d as =>
    simp only [documentedHere, Bool.and_eq_true, List.all_eq_true, List.contains_iff_mem] at hhere
    have hnone : (SEXP.atom d as).attribOf R_NamesSymbol = .nil :=
      attribOf_of_absent fun p hp hps => by
        have hmem := hhere.1.1.1 p hp
        rw [hps] at hmem
        revert hmem
        decide
    rw [if_pos hnone, lookup_names_retained, retainedValue]
    exact .none
  | vec xs as =>
    obtain ⟨-, -, hnames, -⟩ := wellFormed_vector hw hv
    simp only [documentedHere, Bool.and_eq_true] at hhere
    rw [lookup_names_vec, listNames]
    split
    next h =>
      rw [h, if_neg (by simp [isNames])]
      exact .none
    next h =>
      have hfit := hnames.resolve_left h
      rw [if_pos hfit]
      exact .some (identical_plain_names hfit hhere.1.1.2)
  | other o as => rw [documented_not_other] at hdoc; contradiction

/-- Documented attributes stay, given that their values do. -/
theorem attrib_retained_identical {v : SEXP} (hv : v.isVector = true) (hw : v.WellFormed)
    (hdoc : v.everywhere documentedHere = true)
    (ih : ∀ p ∈ v.attrib, identical p.2 (retained p.2) = true) :
    v.attrib.length = (retained v).attrib.length ∧
      identicalAttrib v.attrib (retained v).attrib = true := by
  obtain ⟨hnodup, hnil, hnames, hdims⟩ := wellFormed_vector hw hv
  obtain ⟨hkeys, hnodup'⟩ := keys_retained v
  have hhere := (everywhere_iff.mp hdoc).1
  have hkept (s : Symbol) : Option.Rel (fun x y => identical x y = true)
      (if v.attribOf s = .nil then none else some (v.attribOf s))
      (if v.attribOf s = .nil then none else some (retained (v.attribOf s))) := by
    split
    next => exact .none
    next h => exact .some (ih _ (attribOf_mem h))
  refine identicalAttrib_of_lookup hnodup hnodup' fun s => ?_
  rw [lookup_attrib hnil]
  by_cases hs : s = R_NamesSymbol
  · rw [hs]
    exact names_retained_identical hw hv hdoc
  by_cases hs' : s = R_DimSymbol
  · rw [hs', lookup_dim_retained]
    exact hkept R_DimSymbol
  by_cases hs'' : s = R_DimNamesSymbol
  · rw [hs'', lookup_dimnames_retained hdims]
    exact hkept R_DimNamesSymbol
  · have hkept' : (retained v).attrib.lookup s = none := by
      by_contra h
      have hmem := hkeys (mem_keys_iff.mpr (Option.isSome_iff_ne_none.mpr h))
      simp [hs, hs', hs''] at hmem
    have hdropped : v.attribOf s = .nil := attribOf_of_absent fun p hp hps => by
      have hmem := documented_tags hdoc p hp
      simp [hps, hs, hs', hs''] at hmem
    rw [hkept', if_pos hdropped]
    exact .none

theorem identical_retained (v : SEXP) (hw : v.WellFormed)
    (hdoc : v.everywhere documentedHere = true) : identical v (retained v) = true := by
  induction v using SEXP.induction with
  | nil => rw [retained_plain rfl, retainedValue]; rfl
  | atom d as iha =>
    have hattr := attrib_retained_identical rfl hw hdoc fun p hp =>
      iha p hp ((everywhere_iff.mp hw).2.2 p hp) ((everywhere_iff.mp hdoc).2.2 p hp)
    rw [retained_atom]
    simpa [identical, attrib] using hattr
  | vec xs as ihx iha =>
    have hattr := attrib_retained_identical rfl hw hdoc fun p hp =>
      iha p hp ((everywhere_iff.mp hw).2.2 p hp) ((everywhere_iff.mp hdoc).2.2 p hp)
    have hlist := identicalList_map fun x hx =>
      ihx x hx (everywhere_element hw hx) (everywhere_element hdoc hx)
    rw [retained_vec]
    simpa [identical, attrib, hlist] using hattr
  | other o as iha => rw [documented_not_other] at hdoc; contradiction

theorem payload_documented (v : SEXP) (hdoc : v.everywhere documentedHere = true) :
    (payload v).isSome = true := by
  induction v using SEXP.induction with
  | nil => rw [payload_nil]; rfl
  | atom d as iha =>
    refine payload_isSome ?_ fun p hp => iha p hp ((everywhere_iff.mp hdoc).2.2 p hp)
    rw [payloadValue]
    rfl
  | vec xs as ihx iha =>
    refine payload_isSome ?_ fun p hp => iha p hp ((everywhere_iff.mp hdoc).2.2 p hp)
    obtain ⟨ps, hps⟩ := Option.isSome_iff_exists.mp
      (payloadList_isSome fun x hx => ihx x hx (everywhere_element hdoc hx))
    rw [payloadValue, hps]
    rfl
  | other o as iha => rw [documented_not_other] at hdoc; contradiction

/-- Round trip: behind the bytes written for a documented value the reader returns an
identical value and leaves whatever follows unread. -/
theorem readSEXP_writeSEXP_identical (v : DocumentedValue) (coerce : Coercion) :
    ∃ bytes, (∀ out : ByteFile,
        exec (writeSEXP v.value kVersion) out = (.ok (), ⟨out.bytes ++ bytes⟩)) ∧
      ∀ (st : ReadState) (t : Bytes), ∃ w st',
        exec (readSEXP coerce kVersion) { st with input := bytes ++ t } = (.ok w, st') ∧
          st'.input = t ∧ identical v.value w = true := by
  obtain ⟨p, hp⟩ := Option.isSome_iff_exists.mp (payload_documented v.value v.documented)
  have hwrite := writeSEXP_payload v.value kVersion
  rw [hp] at hwrite
  have hread := readSEXP_reads (payload_fits v.short hp) p.readableAt_kVersion
    (payload_toSEXP coerce v.wellFormed hp)
  exact ⟨p.encode kVersion, hwrite, fun st t => ⟨_, _, hread _ t rfl, rfl,
    identical_retained v.value v.wellFormed v.documented⟩⟩

end RCompss.Serialization
