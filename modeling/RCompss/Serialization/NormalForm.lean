import RCompss.Serialization.Documented

/-! What a file gives back loses nothing more on the next file: it is a value as R holds it, it is
written to the same bytes, and read back as itself. -/
namespace RCompss.Serialization
open RCompss.Library SEXP

@[simp] theorem length_retained (v : SEXP) : (retained v).length = v.length := by
  obtain ⟨as, h⟩ := exists_retained v
  rw [h, ← length_retainedValue v]
  cases retainedValue v <;> rfl

@[simp] theorem attribOf_dim_retained (v : SEXP) :
    (retained v).attribOf R_DimSymbol = retained (v.attribOf R_DimSymbol) := by
  have hnil : retained .nil = .nil := retained_eq_nil.mpr rfl
  unfold attribOf
  rw [lookup_dim_retained]
  by_cases h : v.attribOf R_DimSymbol = .nil
  · have hnone : (v.attrib.lookup R_DimSymbol).getD .nil = .nil := h
    simp [h, hnone, hnil]
  · simp only [if_neg h, Option.getD_some]
    rfl

/-- Without dims there are no dimnames to keep. -/
theorem attribOf_dimnames_retained {v : SEXP}
    (h : v.attribOf R_DimSymbol = .nil → v.attribOf R_DimNamesSymbol = .nil) :
    (retained v).attribOf R_DimNamesSymbol = retained (v.attribOf R_DimNamesSymbol) := by
  have hnil : retained .nil = .nil := retained_eq_nil.mpr rfl
  unfold attribOf
  rw [lookup_dimnames_retained h]
  by_cases hn : v.attribOf R_DimNamesSymbol = .nil
  · have hnone : (v.attrib.lookup R_DimNamesSymbol).getD .nil = .nil := hn
    simp [hn, hnone, hnil]
  · simp only [if_neg hn, Option.getD_some]
    rfl

theorem attribOf_names_retained (xs : List SEXP) (as : List (Symbol × SEXP)) :
    (retained (.vec xs as)).attribOf R_NamesSymbol =
      ((listNames (.vec xs as)).map fun ns => .atom (.str ns) []).getD .nil := by
  unfold attribOf
  rw [lookup_names_vec]

theorem listNames_retained (xs : List SEXP) (as : List (Symbol × SEXP)) :
    listNames (retained (.vec xs as)) = listNames (.vec xs as) := by
  have hlength := length_listNames (v := .vec xs as)
  rw [listNames, attribOf_names_retained, length_retained]
  cases h : listNames (.vec xs as) with
  | none => simp [isNames]
  | some ns => simp [isNames, stringElts, hlength ns h]

theorem retainedValue_retained_vec {xs : List SEXP} (as : List (Symbol × SEXP))
    (h : ∀ x ∈ xs, retained (retained x) = retained x) :
    retainedValue (retained (.vec xs as)) = retainedValue (.vec xs as) := by
  have hmap : (xs.map retained).map retained = xs.map retained := by
    rw [List.map_map]
    exact List.map_congr_left h
  have hnames := listNames_retained xs as
  rw [retained_vec] at hnames ⊢
  rw [retainedValue, retainedValue, retainedList_eq_map, retainedList_eq_map, hmap, hnames]

/-- What is retained of a value is all retained, also without the array wrapper. -/
theorem retained_retained_of_payload {v : SEXP} {p : Payload} (hp : payload v = some p) :
    retained (retained v) = retained v := by
  refine payload_induction (P := fun v _ => retained (retained v) = retained v)
    (Q := fun v _ => retainedValue (retained v) = retainedValue v) ?_ v hp
  constructor
  case nil => rw [retained_eq_nil.mpr rfl]
  case atom =>
    intro d as
    rw [retained_atom, retainedValue, retainedValue]
  case list =>
    intro xs as ps hps
    have hxs : List.Forall₂ (fun v p => retained (retained v) = retained v ∧ True) xs ps :=
      hps.imp fun _ _ h => ⟨h, trivial⟩
    exact retainedValue_retained_vec as ((List.forall₂_and_left _ _).mp hxs).1
  case plain =>
    intro v p hd hv
    have hd' : (retained v).attribOf R_DimSymbol = .nil := by simp [hd]
    rw [retained_plain hd', hv, retained_plain hd]
  case array =>
    intro v d dn p hd hp ihd ihn hv
    have hd' : (retained v).attribOf R_DimSymbol ≠ .nil := by simp [hd]
    have hdn := attribOf_dimnames_retained fun h => absurd h hd
    rw [retained_array hd', hv, attribOf_dim_retained, hdn, ihd, ihn]
    simp only [retained_eq_nil]
    exact (retained_array hd).symm

theorem payloadList_map_retained {xs : List SEXP} {ps : List Payload}
    (h : List.Forall₂ (fun v p => payload (retained v) = some p) xs ps) :
    payloadList (xs.map retained) = some ps := by
  induction h with
  | nil => rw [List.map_nil, payloadList]
  | cons hx _ ih => rw [List.map_cons, payloadList, hx, ih]; rfl

/-- The writer finds in what was read the payload that it was read from. -/
theorem payload_retained {v : SEXP} {p : Payload} (hp : payload v = some p) :
    payload (retained v) = some p := by
  refine payload_induction (P := fun v p => payload (retained v) = some p)
    (Q := fun v p => payloadValue (retained v) = some p) ?_ v hp
  constructor
  case nil => rw [retained_plain rfl, retainedValue, payloadValue]
  case atom =>
    intro d as
    rw [retained_atom, payloadValue]
  case list =>
    intro xs as ps hps
    have hnames := listNames_retained xs as
    rw [retained_vec] at hnames ⊢
    rw [payloadValue, payloadList_map_retained hps, hnames]
    rfl
  case plain =>
    intro v p hd hv
    have hd' : (retained v).attribOf R_DimSymbol = .nil := by simp [hd]
    rw [payload_plain hd', hv]
  case array =>
    intro v d dn p hd hp ihd ihn hv
    have hd' : (retained v).attribOf R_DimSymbol ≠ .nil := by simp [hd]
    have hdn := attribOf_dimnames_retained fun h => absurd h hd
    rw [payload, dif_pos hd', attribOf_dim_retained, hdn, ihd, ihn, hv]
    rfl

/-- An attribute that is left is the names of a list or retained of an attribute. -/
theorem mem_attrib_retained {v : SEXP} {a : Symbol × SEXP} (ha : a ∈ (retained v).attrib) :
    (∃ xs as, v = .vec xs as ∧ ∃ ns ∈ listNames v, a.2 = .atom (.str ns) []) ∨
      ∃ b ∈ v.attrib, b.2 ≠ .nil ∧ a.2 = retained b.2 := by
  rw [attrib_retained, List.mem_append] at ha
  rcases ha with ha | ha
  · cases v with
    | nil | atom d as | other o as => simp [retainedValue, attrib] at ha
    | vec xs as =>
      rw [retainedValue] at ha
      cases hns : listNames (.vec xs as) with
      | none => simp [hns, attrib, namesAttrib] at ha
      | some ns =>
        simp only [hns, attrib, namesAttrib, List.mem_singleton] at ha
        exact .inl ⟨xs, as, rfl, ns, rfl, congrArg Prod.snd ha⟩
  · split at ha
    · cases ha
    next hd =>
      rcases List.mem_cons.mp ha with rfl | ha
      · exact .inr ⟨_, attribOf_mem hd, hd, rfl⟩
      · split at ha
        · cases ha
        next hdn =>
          exact .inr ⟨_, attribOf_mem hdn, hdn, congrArg Prod.snd (List.mem_singleton.mp ha)⟩

theorem elements_retained (v : SEXP) : (retained v).elements = v.elements.map retained := by
  cases v with
  | vec xs as => rw [retained_vec]; rfl
  | nil | atom d as | other o as =>
    obtain ⟨bs, h⟩ := exists_retained _
    rw [h, retainedValue]
    rfl

/-- What retaining keeps true of a value is true of it everywhere below, if it is true of the
names of lists. -/
theorem everywhere_retained {p : SEXP → Bool}
    (hkeeps : ∀ v, v.everywhere p = true → p (retained v) = true)
    (hnames : ∀ xs as, (SEXP.vec xs as).everywhere p = true →
      ∀ ns ∈ listNames (.vec xs as), p (.atom (.str ns) []) = true)
    (v : SEXP) (hv : v.everywhere p = true) : (retained v).everywhere p = true := by
  have hlevel (w : SEXP) (hw : w.everywhere p = true)
      (ihx : ∀ x ∈ w.elements, (retained x).everywhere p = true)
      (iha : ∀ a ∈ w.attrib, (retained a.2).everywhere p = true) :
      (retained w).everywhere p = true := by
    refine everywhere_iff.mpr ⟨hkeeps w hw, fun x hx => ?_, fun a ha => ?_⟩
    · rw [elements_retained] at hx
      obtain ⟨y, hy, rfl⟩ := List.mem_map.mp hx
      exact ihx y hy
    · rcases mem_attrib_retained ha with ⟨xs, as, rfl, ns, hns, h⟩ | ⟨b, hb, -, h⟩
      · rw [h, everywhere, hnames xs as hw ns hns]
        rfl
      · rw [h]
        exact iha b hb
  induction v using SEXP.induction with
  | nil => exact hlevel _ hv (by simp [elements]) (by simp [attrib])
  | atom d as iha =>
    exact hlevel _ hv (by simp [elements]) fun a ha => iha a ha ((everywhere_iff.mp hv).2.2 a ha)
  | vec xs as ihx iha =>
    exact hlevel _ hv (fun x hx => ihx x hx (everywhere_element hv hx))
      fun a ha => iha a ha ((everywhere_iff.mp hv).2.2 a ha)
  | other o as iha =>
    exact hlevel _ hv (by simp [elements]) fun a ha => iha a ha ((everywhere_iff.mp hv).2.2 a ha)

@[simp] theorem isVector_retained (v : SEXP) : (retained v).isVector = v.isVector := by
  obtain ⟨as, h⟩ := exists_retained v
  rw [h]
  cases v <;> rw [retainedValue] <;> rfl

/-- A list keeps its names, another value has none left. -/
theorem isNames_retained (v : SEXP) : (retained v).attribOf R_NamesSymbol = .nil ∨
    isNames v.length ((retained v).attribOf R_NamesSymbol) = true := by
  cases v with
  | vec xs as =>
    have hlength := length_listNames (v := .vec xs as)
    rw [attribOf_names_retained]
    cases h : listNames (.vec xs as) with
    | none => exact .inl rfl
    | some ns =>
      refine .inr ?_
      simpa [isNames] using hlength ns h
  | nil | atom d as | other o as =>
    left
    unfold attribOf
    rw [lookup_names_retained, retainedValue]
    rfl

theorem wellFormedHere_retained {v : SEXP} (hv : v.WellFormed) :
    wellFormedHere (retained v) = true := by
  by_cases hvec : v.isVector = true
  · have hhere := (everywhere_iff.mp hv).1
    obtain ⟨-, -, -, hdimnames⟩ := wellFormed_vector hv hvec
    simp only [wellFormedHere, hvec, Bool.not_true, Bool.false_or, Bool.and_eq_true,
      Bool.or_eq_true, isNil_iff, decide_eq_true_eq] at hhere
    obtain ⟨⟨⟨-, hdims⟩, hdn⟩, hlength⟩ := hhere
    have hnil : ∀ a ∈ (retained v).attrib, a.2 ≠ .nil := by
      intro a ha
      rcases mem_attrib_retained ha with ⟨xs, as, rfl, ns, -, h⟩ | ⟨b, -, hb, h⟩
      · simp [h]
      · simpa [h] using hb
    simp only [wellFormedHere, isVector_retained, hvec, Bool.not_true, Bool.false_or,
      Bool.and_eq_true, Bool.or_eq_true, isNil_iff, decide_eq_true_eq, length_retained,
      List.all_eq_true, Bool.not_eq_true', isNil_eq_false, attribOf_dim_retained,
      attribOf_dimnames_retained hdimnames, retained_eq_nil, isDims_retained, extents_retained,
      isDimNames_retained]
    exact ⟨⟨⟨⟨⟨(keys_retained v).2, hnil⟩, isNames_retained v⟩, hdims⟩, hdn⟩, hlength⟩
  · simp [wellFormedHere, hvec]

theorem wellFormed_retained {v : SEXP} (hv : v.WellFormed) : (retained v).WellFormed := by
  apply everywhere_retained (fun v => wellFormedHere_retained) _ v hv
  intro xs as hw ns hns
  have hhere := (everywhere_iff.mp hw).1
  have hlength := length_listNames ns hns
  simp only [wellFormedHere, isVector, Bool.not_true, Bool.false_or, Bool.and_eq_true,
    decide_eq_true_eq] at hhere
  have hlong : ns.length ≤ 2 ^ 52 := hlength ▸ hhere.2
  simp only [wellFormedHere, attribOf, attrib, SEXP.length, Atomic.length, hlong, decide_true,
    Bool.and_true]
  simp

theorem shortHere_retained {v : SEXP} (hv : v.everywhere shortHere = true) :
    (retained v).everywhere shortHere = true := by
  apply everywhere_retained (fun v hv => ?_) (fun xs as hv ns hns => ?_) v hv
  · have hhere := (everywhere_iff.mp hv).1
    simpa [shortHere] using hhere
  · have hhere := (everywhere_iff.mp hv).1
    have hlength := length_listNames ns hns
    simp only [shortHere] at hhere ⊢
    rw [← hlength] at hhere
    exact hhere

/-- The value that a file gives back. -/
def ShortValue.retained (v : ShortValue) : ShortValue where
  value := Serialization.retained v.value
  wellFormed := wellFormed_retained v.wellFormed
  short := shortHere_retained v.short

end RCompss.Serialization
