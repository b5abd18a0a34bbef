import RCompss.Serialization.RoundTrip

/-! The part of a value that survives a file. -/
namespace RCompss.Serialization
open RCompss.Library SEXP

def namesAttrib : Option (List CharSXP) → List (Symbol × SEXP)
  | none => []
  | some ns => [(R_NamesSymbol, .atom (.str ns) [])]

mutual

/-- Equal data at every level. Of the attributes the names of lists stay, without their
own attributes, and the dims and dimnames of arrays, retained in turn. -/
def retained (v : SEXP) : SEXP :=
  if _h : v.attribOf R_DimSymbol ≠ .nil then
    (retainedValue v).withAttrib ((retainedValue v).attrib ++
      (R_DimSymbol, retained (v.attribOf R_DimSymbol)) ::
        if v.attribOf R_DimNamesSymbol = .nil then []
        else [(R_DimNamesSymbol, retained (v.attribOf R_DimNamesSymbol))])
  else retainedValue v
termination_by 2 * sizeOf v + 1
decreasing_by
  all_goals try omega
  all_goals
    have hd := SEXP.sizeOf_attribOf_lt (t := R_DimSymbol) _h
    have hn := SEXP.sizeOf_attribOf_lt (t := R_DimNamesSymbol) _h
    omega

def retainedValue (v : SEXP) : SEXP :=
  match v with
  | .nil => .nil
  | .atom d _ => .atom d []
  | .vec xs as => .vec (retainedList xs) (namesAttrib (listNames (.vec xs as)))
  | .other o _ => .other o []
termination_by 2 * sizeOf v

def retainedList (xs : List SEXP) : List SEXP :=
  match xs with
  | [] => []
  | x :: xs => retained x :: retainedList xs
termination_by 2 * sizeOf xs

end

theorem retainedList_eq_map (xs : List SEXP) : retainedList xs = xs.map retained := by
  induction xs with
  | nil => rw [retainedList, List.map_nil]
  | cons x xs ih => rw [retainedList, ih, List.map_cons]

theorem exists_retained (v : SEXP) : ∃ as, retained v = (retainedValue v).withAttrib as := by
  rw [retained]
  split
  · exact ⟨_, rfl⟩
  · refine ⟨(retainedValue v).attrib, ?_⟩
    cases retainedValue v <;> rfl

@[simp] theorem isNil_retained (v : SEXP) : (retained v).isNil = v.isNil := by
  obtain ⟨as, h⟩ := exists_retained v
  rw [h]
  cases v <;> rw [retainedValue] <;> rfl

@[simp] theorem retained_eq_nil {v : SEXP} : retained v = .nil ↔ v = .nil := by
  rw [← isNil_iff, isNil_retained, isNil_iff]

@[simp] theorem extents_retained (v : SEXP) : (retained v).extents = v.extents := by
  obtain ⟨as, h⟩ := exists_retained v
  rw [h]
  cases v with
  | atom d bs => rw [retainedValue]; cases d <;> rfl
  | nil | vec xs bs | other o bs => rw [retainedValue]; rfl

@[simp] theorem isDims_retained (n : ℕ) (v : SEXP) : isDims n (retained v) = isDims n v := by
  simp only [isDims, extents_retained]

@[simp] theorem isDimName_retained (d : BitVec 32) (v : SEXP) :
    isDimName d (retained v) = isDimName d v := by
  obtain ⟨as, h⟩ := exists_retained v
  rw [h]
  cases v with
  | atom e bs => rw [retainedValue]; cases e <;> rfl
  | nil | vec xs bs | other o bs => rw [retainedValue]; rfl

@[simp] theorem isDimNames_retained (ds : List (BitVec 32)) (v : SEXP) :
    isDimNames ds (retained v) = isDimNames ds v := by
  obtain ⟨as, h⟩ := exists_retained v
  rw [h]
  cases v with
  | vec xs bs =>
    rw [retainedValue, retainedList_eq_map]
    simp only [withAttrib, isDimNames, List.length_map, List.zip_map_right, List.all_map]
    congr 2
    funext p
    exact isDimName_retained p.1 p.2
  | nil | atom d bs | other o bs => rw [retainedValue]; rfl

@[simp] theorem length_retainedValue (v : SEXP) : (retainedValue v).length = v.length := by
  cases v with
  | vec xs as => rw [retainedValue, retainedList_eq_map]; exact List.length_map ..
  | nil | atom d as | other o as => simp [retainedValue, SEXP.length]

/-- Only `names` can be among the attributes before the array attributes are set. -/
theorem tag_retainedValue (v : SEXP) : ∀ p ∈ (retainedValue v).attrib, p.1 = R_NamesSymbol := by
  cases v with
  | nil | atom d as | other o as => simp [retainedValue, attrib]
  | vec xs as =>
    rw [retainedValue]
    cases listNames (.vec xs as) <;> simp [attrib, namesAttrib]

theorem setAttrib_names {coerce : Coercion} {n : ℕ} {x : SEXP} (hx : isNames n x = true) :
    (SEXP.vec (List.replicate n .nil) []).setAttrib coerce R_NamesSymbol x =
      .ok (.vec (List.replicate n .nil) [(R_NamesSymbol, x)]) := by
  have hnil : ¬ x.isNil = true := by
    intro h
    simp [isNil_iff.mp h, isNames] at hx
  have hne : R_NamesSymbol ≠ R_DimSymbol := by decide
  have hstore : (SEXP.vec (List.replicate n .nil) []).storesAttrib R_NamesSymbol x = true := by
    simp [storesAttrib, isVector, isOneDimensionalArray, attribOf, attrib, SEXP.length, hx]
  rw [setAttrib, if_neg hnil, if_pos hstore, if_neg hne]
  rfl

theorem attachNames_listNames (coerce : Coercion) (xs : List SEXP) (as : List (Symbol × SEXP)) :
    attachNames coerce xs.length (listNames (.vec xs as)) =
      .ok (namesAttrib (listNames (.vec xs as))) := by
  unfold listNames
  split
  next h =>
    have hlen : isNames xs.length (.atom (.str (stringElts ((SEXP.vec xs as).attribOf
        R_NamesSymbol))) []) = true := by
      revert h
      cases (SEXP.vec xs as).attribOf R_NamesSymbol with
      | atom d bs => cases d <;> simp [isNames, stringElts, SEXP.length]
      | nil | vec ys bs | other o bs => simp [isNames]
    rw [attachNames, setAttrib_names hlen]
    rfl
  next => rfl

theorem setAttrib_dim {coerce : Coercion} {v x : SEXP} (hv : v.isVector = true)
    (hx : isDims v.length x = true) (htags : ∀ p ∈ v.attrib, p.1 = R_NamesSymbol) :
    v.setAttrib coerce R_DimSymbol x = .ok (v.withAttrib (v.attrib ++ [(R_DimSymbol, x)])) := by
  have hnil : ¬ x.isNil = true := by
    intro h
    simp [isNil_iff.mp h, isDims, extents] at hx
  have hstrip : stripAttrib R_DimNamesSymbol v.attrib = v.attrib :=
    stripAttrib_of_absent fun p hp => by rw [htags p hp]; decide
  have hinstall : installEntry R_DimSymbol x v.attrib = v.attrib ++ [(R_DimSymbol, x)] :=
    installEntry_of_absent fun p hp => by rw [htags p hp]; decide
  have hne : R_DimNamesSymbol ≠ R_DimSymbol := by decide
  rw [setAttrib, if_neg hnil, if_pos (by simp [storesAttrib, hv, hx]), if_pos rfl, removeAttrib,
    if_neg hne, hstrip, installAttrib]
  cases v <;> simp [isVector] at hv <;> simp_all [withAttrib, attrib]

theorem setAttrib_dimnames (coerce : Coercion) {v d x : SEXP} {as : List (Symbol × SEXP)}
    (hv : v.isVector = true) (htags : ∀ p ∈ as, p.1 = R_NamesSymbol)
    (hx : x = .nil ∨ isDimNames d.extents x = true) :
    (v.withAttrib (as ++ [(R_DimSymbol, d)])).setAttrib coerce R_DimNamesSymbol x =
      .ok (v.withAttrib (as ++ (R_DimSymbol, d) ::
        if x = .nil then [] else [(R_DimNamesSymbol, x)])) := by
  have habsent : ∀ p ∈ as ++ [(R_DimSymbol, d)], p.1 ≠ R_DimNamesSymbol := by
    intro p hp
    rcases List.mem_append.mp hp with hp | hp
    · rw [htags p hp]
      decide
    · rw [List.mem_singleton.mp hp]
      exact (by decide : R_DimSymbol ≠ R_DimNamesSymbol)
  have hdim : (as ++ [(R_DimSymbol, d)]).lookup R_DimSymbol = some d := by
    have has : as.lookup R_DimSymbol = none := by
      rw [List.lookup_eq_none_iff]
      intro p hp
      rw [htags p hp]
      decide
    rw [List.lookup_append, has]
    simp
  rcases hx with rfl | hx
  · rw [if_pos rfl, setAttrib, if_pos (isNil_iff.mpr rfl), removeAttrib, if_neg (by decide)]
    cases v <;> simp [isVector] at hv <;>
      simp [withAttrib, attrib, stripAttrib_of_absent habsent]
  · have hnil : ¬ x.isNil = true := by
      intro h
      simp [isNil_iff.mp h, isDimNames] at hx
    have hne : R_DimNamesSymbol ≠ R_DimSymbol := by decide
    have hstore : (v.withAttrib (as ++ [(R_DimSymbol, d)])).storesAttrib R_DimNamesSymbol x =
        true := by
      cases v <;> simp_all [isVector, storesAttrib, withAttrib, attribOf, attrib]
    rw [setAttrib, if_neg hnil, if_pos hstore, if_neg hne, installAttrib,
      if_neg (by simpa using hnil)]
    cases v <;> simp [isVector] at hv <;>
      simp [withAttrib, attrib, installEntry_of_absent habsent]

/-- A list or atomic vector is all the writer accepts under dims. -/
theorem isVector_retainedValue {v : SEXP} (hv : payloadValue v ≠ none)
    (hd : v.attribOf R_DimSymbol ≠ .nil) : (retainedValue v).isVector = true := by
  cases v with
  | nil => simp [attribOf, attrib] at hd
  | atom d as | vec xs as => simp [retainedValue, isVector]
  | other o as => rw [payloadValue] at hv; contradiction

theorem wellFormed_dims {v : SEXP} (h : v.WellFormed) (hv : payloadValue v ≠ none)
    (hd : v.attribOf R_DimSymbol ≠ .nil) :
    isDims v.length (v.attribOf R_DimSymbol) = true ∧
      (v.attribOf R_DimNamesSymbol = .nil ∨
        isDimNames (v.attribOf R_DimSymbol).extents (v.attribOf R_DimNamesSymbol) = true) := by
  have hvec : v.isVector = true := by
    cases v with
    | nil => simp [attribOf, attrib] at hd
    | atom d as | vec xs as => rfl
    | other o as => rw [payloadValue] at hv; contradiction
  have hhere := (everywhere_iff.mp h).1
  simp only [wellFormedHere, hvec, Bool.not_true, Bool.false_or, Bool.and_eq_true,
    Bool.or_eq_true, isNil_iff] at hhere
  obtain ⟨⟨⟨-, hdims⟩, hnames⟩, -⟩ := hhere
  exact ⟨hdims.resolve_left hd, hnames⟩

theorem retained_plain {v : SEXP} (hd : v.attribOf R_DimSymbol = .nil) :
    retained v = retainedValue v := by
  rw [retained, dif_neg (not_not.mpr hd)]

theorem retained_array {v : SEXP} (hd : v.attribOf R_DimSymbol ≠ .nil) :
    retained v = (retainedValue v).withAttrib ((retainedValue v).attrib ++
      (R_DimSymbol, retained (v.attribOf R_DimSymbol)) ::
        if v.attribOf R_DimNamesSymbol = .nil then []
        else [(R_DimNamesSymbol, retained (v.attribOf R_DimNamesSymbol))]) := by
  rw [retained, dif_pos hd]

theorem toSEXPList_retained {coerce : Coercion} {xs : List SEXP} {ps : List Payload}
    (h : List.Forall₂ (fun v p => v.WellFormed → p.toSEXP coerce = .ok (retained v)) xs ps)
    (hw : ∀ x ∈ xs, x.WellFormed) : Payload.toSEXPList coerce ps = .ok (retainedList xs) := by
  induction h with
  | nil => rw [retainedList, Payload.toSEXPList]
  | cons hx _ ih =>
    rw [retainedList, Payload.toSEXPList, hx (hw _ (by simp)),
      ih fun y hy => hw y (by simp [hy])]
    rfl

/-- What the reader builds from the payload of a well-formed value is what the format
retains of it, whatever `Rf_setAttrib` does with other arguments. -/
theorem payload_toSEXP (coerce : Coercion) {v : SEXP} {p : Payload} (hw : v.WellFormed)
    (hp : payload v = some p) : p.toSEXP coerce = .ok (retained v) := by
  refine payload_induction (P := fun v p => v.WellFormed → p.toSEXP coerce = .ok (retained v))
    (Q := fun v p => v.WellFormed → p.toSEXP coerce = .ok (retainedValue v)) ?_ v hp hw
  constructor
  case nil =>
    intro _
    rw [retainedValue, Payload.toSEXP]
  case atom =>
    intro d as _
    rw [retainedValue, Payload.toSEXP]
  case list =>
    intro xs as ps hps hw
    have hlist := toSEXPList_retained hps fun x hx => everywhere_element hw hx
    rw [retainedValue, Payload.toSEXP, ← hps.length_eq, attachNames_listNames, hlist]
    rfl
  case plain =>
    intro v p hd hv hw
    rw [retained_plain hd, hv hw]
  case array =>
    intro v d dn p hd hp ihd ihn ihv hw
    have hv : payloadValue v ≠ none := by simp [hp]
    obtain ⟨hdims, hnames⟩ := wellFormed_dims hw hv hd
    have hvec := isVector_retainedValue hv hd
    have htags := tag_retainedValue v
    have hset := setAttrib_dimnames coerce (x := retained (v.attribOf R_DimNamesSymbol))
      (d := retained (v.attribOf R_DimSymbol)) hvec htags (by simpa using hnames)
    simp only [retained_eq_nil] at hset
    rw [retained_array hd, Payload.toSEXP, ihd (everywhere_attribOf hw rfl _),
      ihn (everywhere_attribOf hw rfl _), ihv hw]
    simp only [bind, Except.bind]
    rw [setAttrib_dim hvec (by simpa using hdims) htags]
    exact hset

/-- A length header holds 32 bits. -/
def shortHere (v : SEXP) : Bool := decide (v.length < 2 ^ 32)

theorem fitsList_of_short {xs : List SEXP} {ps : List Payload}
    (h : List.Forall₂ (fun v p => v.everywhere shortHere = true → p.fits = true) xs ps)
    (hs : ∀ x ∈ xs, x.everywhere shortHere = true) : Payload.fitsList ps = true := by
  induction h with
  | nil => rfl
  | cons hx _ ih =>
    rw [Payload.fitsList, hx (hs _ (by simp)), ih fun y hy => hs y (by simp [hy])]
    rfl

theorem length_listNames {v : SEXP} : ∀ ns ∈ listNames v, ns.length = v.length := by
  intro ns hns
  unfold listNames at hns
  split at hns
  next h =>
    cases hns
    revert h
    cases v.attribOf R_NamesSymbol with
    | atom d as => cases d <;> simp [isNames, stringElts]
    | nil | vec xs as | other o as => simp [isNames]
  next => cases hns

/-- Payloads found in values with short vectors fit their headers. -/
theorem payload_fits {v : SEXP} {p : Payload} (hs : v.everywhere shortHere = true)
    (hp : payload v = some p) : p.fits = true := by
  refine payload_induction (P := fun v p => v.everywhere shortHere = true → p.fits = true)
    (Q := fun v p => v.everywhere shortHere = true → p.fits = true) ?_ v hp hs
  constructor
  case nil => exact fun _ => rfl
  case atom => exact fun d as hs => (everywhere_iff.mp hs).1
  case list =>
    intro xs as ps hps hs
    have hlist := fitsList_of_short hps fun x hx => everywhere_element hs hx
    have hlen : xs.length < 2 ^ 32 := of_decide_eq_true (everywhere_iff.mp hs).1
    have hnames : ((listNames (.vec xs as)).all fun ns => ns.length == ps.length) = true := by
      rw [Option.all_eq_true]
      intro ns hns
      simpa [SEXP.length, hps.length_eq] using length_listNames ns hns
    rw [hps.length_eq] at hlen
    simpa [Payload.fits, hlist, hnames] using hlen
  case plain => exact fun v p _ hv hs => hv hs
  case array =>
    intro v d dn p hd hp ihd ihn ihv hs
    simp [Payload.fits, ihd (everywhere_attribOf hs rfl _), ihn (everywhere_attribOf hs rfl _),
      ihv hs]

theorem retained_atom (d : Atomic) (as : List (Symbol × SEXP)) :
    retained (.atom d as) = .atom d (retained (.atom d as)).attrib := by
  obtain ⟨bs, h⟩ := exists_retained (.atom d as)
  rw [h, retainedValue]
  rfl

theorem retained_vec (xs : List SEXP) (as : List (Symbol × SEXP)) :
    retained (.vec xs as) = .vec (xs.map retained) (retained (.vec xs as)).attrib := by
  obtain ⟨bs, h⟩ := exists_retained (.vec xs as)
  rw [h, retainedValue, retainedList_eq_map]
  rfl

theorem attrib_retained (v : SEXP) :
    (retained v).attrib = (retainedValue v).attrib ++
      if v.attribOf R_DimSymbol = .nil then [] else
        (R_DimSymbol, retained (v.attribOf R_DimSymbol)) ::
          if v.attribOf R_DimNamesSymbol = .nil then []
          else [(R_DimNamesSymbol, retained (v.attribOf R_DimNamesSymbol))] := by
  by_cases hd : v.attribOf R_DimSymbol = .nil
  · rw [retained_plain hd, if_pos hd, List.append_nil]
  · rw [retained_array hd, if_neg hd]
    cases v with
    | nil => simp [attribOf, attrib] at hd
    | atom d as | vec xs as | other o as => rw [retainedValue]; rfl

/-- The tags that stay, each at most once and in this order. -/
theorem keys_retained (v : SEXP) :
    (retained v).attrib.map Prod.fst ⊆ [R_NamesSymbol, R_DimSymbol, R_DimNamesSymbol] ∧
      ((retained v).attrib.map Prod.fst).Nodup := by
  have hvalue : (retainedValue v).attrib.map Prod.fst = [] ∨
      (retainedValue v).attrib.map Prod.fst = [R_NamesSymbol] := by
    cases v with
    | nil | atom d as | other o as => simp [retainedValue, attrib]
    | vec xs as =>
      rw [retainedValue]
      cases listNames (.vec xs as) <;> simp [attrib, namesAttrib]
  rw [attrib_retained, List.map_append]
  split <;> [skip; split] <;> rcases hvalue with h | h <;> rw [h] <;> simp <;> decide

theorem lookup_names_retained (v : SEXP) :
    (retained v).attrib.lookup R_NamesSymbol = (retainedValue v).attrib.lookup R_NamesSymbol := by
  rw [attrib_retained, List.lookup_append]
  split <;> [skip; split] <;> simp [R_NamesSymbol, R_DimSymbol, R_DimNamesSymbol,
    List.lookup_cons]

theorem lookup_names_vec (xs : List SEXP) (as : List (Symbol × SEXP)) :
    (retained (.vec xs as)).attrib.lookup R_NamesSymbol =
      (listNames (.vec xs as)).map fun ns => .atom (.str ns) [] := by
  rw [lookup_names_retained, retainedValue]
  cases listNames (.vec xs as) <;> rfl

theorem lookup_retainedValue (v : SEXP) {s : Symbol} (hs : s ≠ R_NamesSymbol) :
    (retainedValue v).attrib.lookup s = none := by
  rw [List.lookup_eq_none_iff]
  intro p hp
  rw [tag_retainedValue v p hp]
  simpa using hs

theorem lookup_dim_retained (v : SEXP) :
    (retained v).attrib.lookup R_DimSymbol = if v.attribOf R_DimSymbol = .nil then none
      else some (retained (v.attribOf R_DimSymbol)) := by
  rw [attrib_retained, List.lookup_append, lookup_retainedValue v (by decide)]
  split <;> simp

theorem lookup_dimnames_retained {v : SEXP}
    (hd : v.attribOf R_DimSymbol = .nil → v.attribOf R_DimNamesSymbol = .nil) :
    (retained v).attrib.lookup R_DimNamesSymbol = if v.attribOf R_DimNamesSymbol = .nil then none
      else some (retained (v.attribOf R_DimNamesSymbol)) := by
  have hne : (R_DimNamesSymbol == R_DimSymbol) = false := by decide
  rw [attrib_retained, List.lookup_append, lookup_retainedValue v (by decide)]
  split
  next h => simp [hd h]
  next => split <;> simp [List.lookup_cons, hne]

/-- A value as R holds it, with lengths that fit the format's headers. -/
structure ShortValue where
  value : SEXP
  wellFormed : value.WellFormed
  short : value.everywhere shortHere = true

/-- The file written for an accepted value is read back, and unprotected. -/
theorem unserializeSEXP_written (v : ShortValue) (coerce : Coercion) {p : Payload}
    (hp : payload v.value = some p) :
    exec (unserializeSEXP coerce) (.open (fileBytes kVersion p)) = (.ok (retained v.value),
      { input := [], protectCount := p.stackUse.net,
        stack := (StackMeter.empty.advance p.stackUse).pop p.stackUse.net,
        calls := p.tags }) := by
  have hfile := unserializeSEXP_file (show kMinReadVersion ≤ kVersion by decide) le_rfl
    (payload_fits v.short hp) p.readableAt_kVersion (payload_toSEXP coerce v.wellFormed hp) []
  rwa [List.append_nil] at hfile

/-- A value is rejected, or the file written for it gives back exactly what the format
retains. -/
theorem unserializeSEXP_serializeSEXP (v : ShortValue) (coerce : Coercion) :
    (∃ out : ByteFile, exec (serializeSEXP v.value) ⟨[]⟩ = (.error .unsupportedType, out)) ∨
      ∃ bytes st, exec (serializeSEXP v.value) (⟨[]⟩ : ByteFile) = (.ok (), ⟨bytes⟩) ∧
        exec (unserializeSEXP coerce) (.open bytes) = (.ok (retained v.value), st) := by
  rcases hp : payload v.value with _ | p
  · exact .inl (serializeSEXP_unsupported hp ⟨[]⟩)
  · exact .inr ⟨_, _, serializeSEXP_writes hp ⟨[]⟩, unserializeSEXP_written v coerce hp⟩

/-- `c(a = 1L)`. -/
def namedInteger : ShortValue where
  value := .atom (.int [1])
    [(R_NamesSymbol, .atom (.str [some ⟨[97], by decide, by decide⟩]) [])]
  wellFormed := by decide
  short := by decide

theorem retained_namedInteger : retained namedInteger.value = .atom (.int [1]) [] := by
  rw [retained_plain rfl, namedInteger, retainedValue]

/-- The names of `c(a = 1L)` are neither rejected nor given back. -/
theorem names_of_vector_lost :
    ¬ ∀ (v : ShortValue) (coerce : Coercion),
      (∃ e, ∃ out : ByteFile, exec (serializeSEXP v.value) ⟨[]⟩ = (.error e, out)) ∨
        ∃ bytes w st, exec (serializeSEXP v.value) (⟨[]⟩ : ByteFile) = (.ok (), ⟨bytes⟩) ∧
          exec (unserializeSEXP coerce) (.open bytes) = (.ok w, st) ∧
            identical v.value w = true := by
  intro h
  have hp : payload namedInteger.value = some (.atom (.int [1])) := by
    rw [payload_plain rfl, namedInteger, payloadValue]
  have hwrite := serializeSEXP_writes hp ⟨[]⟩
  rcases h namedInteger fun v _ _ => .ok v with ⟨e, out, herr⟩ | ⟨bytes, w, st, hok, hread, hid⟩
  · rw [hwrite] at herr
    cases herr
  · rw [hwrite] at hok
    cases hok
    rw [List.nil_append, unserializeSEXP_written namedInteger _ hp] at hread
    cases hread
    rw [retained_namedInteger] at hid
    revert hid
    decide

end RCompss.Serialization
