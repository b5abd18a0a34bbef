import RCompss.Serialization.Consumption
import RCompss.Serialization.Documented

/-! Old files under new readers, and what versions 1 and 2 hold of values without arrays. -/
namespace RCompss.Serialization
open RCompss.Library SEXP

namespace Payload

mutual

/-- What version 1 has room for: no list has names. -/
def eraseNames : Payload → Payload
  | .nil => .nil
  | .atom d => .atom d
  | .list _ xs => .list none (eraseNamesList xs)
  | .array dims dimnames value =>
      .array (eraseNames dims) (eraseNames dimnames) (eraseNames value)

def eraseNamesList : List Payload → List Payload
  | [] => []
  | x :: xs => eraseNames x :: eraseNamesList xs

end

theorem eraseNamesList_eq_map (xs : List Payload) : eraseNamesList xs = xs.map eraseNames := by
  induction xs with
  | nil => rfl
  | cons x xs ih => rw [eraseNamesList, ih, List.map_cons]

theorem encodeList_eq_flatMap (version : ℕ) (xs : List Payload) :
    encodeList version xs = xs.flatMap (encode version) := by
  induction xs with
  | nil => rfl
  | cons x xs ih => rw [encodeList, ih, List.flatMap_cons]

theorem fitsList_iff {xs : List Payload} : fitsList xs = true ↔ ∀ x ∈ xs, fits x = true := by
  induction xs with
  | nil => simp [fitsList]
  | cons x xs ih => simp [fitsList, ih]

/-- The names leave no trace in version 1. -/
theorem encode_eraseNames (p : Payload) : p.eraseNames.encode 1 = p.encode 1 := by
  induction p using Payload.induction with
  | nil | atom d => rfl
  | list names xs ih =>
    have hxs : (xs.map eraseNames).flatMap (encode 1) = xs.flatMap (encode 1) := by
      rw [List.flatMap_map]
      exact List.flatMap_congr ih
    rw [eraseNames, encode, encode, eraseNamesList_eq_map, encodeList_eq_flatMap,
      encodeList_eq_flatMap, hxs, List.length_map]
    rfl
  | array d dn v hd hn hv => rw [eraseNames, encode, encode, hd, hn, hv]

theorem fits_eraseNames {p : Payload} (h : p.fits = true) : p.eraseNames.fits = true := by
  induction p using Payload.induction with
  | nil | atom d => exact h
  | list names xs ih =>
    simp only [fits, Bool.and_eq_true, fitsList_iff] at h
    simp only [eraseNames, eraseNamesList_eq_map, fits, List.length_map, Bool.and_eq_true,
      fitsList_iff, List.mem_map, Option.all_none, and_true]
    refine ⟨h.1.1, ?_⟩
    rintro _ ⟨x, hx, rfl⟩
    exact ih x hx (h.2 x hx)
  | array d dn v hd hn hv =>
    simp only [fits, Bool.and_eq_true] at h
    simp only [eraseNames, fits, Bool.and_eq_true]
    exact ⟨⟨hd h.1.1, hn h.1.2⟩, hv h.2⟩

/-- Without names version 1 reads whatever version 2 does. -/
theorem readableAt_eraseNames {p : Payload} (h : p.readableAt 2 = true) :
    p.eraseNames.readableAt 1 = true := by
  induction p using Payload.induction with
  | nil | atom d => rfl
  | list names xs ih =>
    simp only [readableAt, Bool.and_eq_true, readableAtList_iff] at h
    simp only [eraseNames, eraseNamesList_eq_map, readableAt, readableAtList_iff, List.mem_map,
      Option.isNone_none, Bool.true_or, Bool.true_and]
    rintro _ ⟨x, hx, rfl⟩
    exact ih x hx (h.2 x hx)
  | array d dn v hd hn hv => simp [readableAt] at h

end Payload

mutual

/-- The value with the names of every list at every depth erased. -/
def eraseListNames : SEXP → SEXP
  | .nil => .nil
  | .atom d as => .atom d as
  | .vec xs as => .vec (eraseListNamesList xs) (stripAttrib R_NamesSymbol as)
  | .other o as => .other o as

def eraseListNamesList : List SEXP → List SEXP
  | [] => []
  | x :: xs => eraseListNames x :: eraseListNamesList xs

end

theorem eraseListNamesList_eq_map (xs : List SEXP) :
    eraseListNamesList xs = xs.map eraseListNames := by
  induction xs with
  | nil => rfl
  | cons x xs ih => rw [eraseListNamesList, ih, List.map_cons]

theorem stripAttrib_eq_nil {s : Symbol} {as : List (Symbol × SEXP)} (h : ∀ p ∈ as, p.1 = s) :
    stripAttrib s as = [] :=
  List.filter_eq_nil_iff.mpr fun p hp => by simpa using h p hp

/-- Names of the right length are all the attributes that a list gets from a file. -/
theorem stripAttrib_attachNames {coerce : Coercion} {n : ℕ} {names : Option (List CharSXP)}
    {as : List (Symbol × SEXP)} (hn : ∀ ns ∈ names, ns.length = n)
    (h : attachNames coerce n names = .ok as) : stripAttrib R_NamesSymbol as = [] := by
  cases names with
  | none =>
    cases h
    rfl
  | some ns =>
    have hfit : isNames n (.atom (.str ns) []) = true := by simp [isNames, hn ns rfl]
    rw [attachNames, setAttrib_names hfit] at h
    cases h
    exact stripAttrib_eq_nil (by simp [attrib])

theorem toSEXPList_eraseNames {coerce : Coercion} {xs : List Payload} {ws : List SEXP}
    (ih : ∀ x ∈ xs, ∀ w, x.toSEXP coerce = .ok w →
      x.eraseNames.toSEXP coerce = .ok (eraseListNames w))
    (h : Payload.toSEXPList coerce xs = .ok ws) :
    Payload.toSEXPList coerce (xs.map Payload.eraseNames) = .ok (ws.map eraseListNames) := by
  induction xs generalizing ws with
  | nil =>
    cases h
    rfl
  | cons x xs ihxs =>
    obtain ⟨w, ws', hx, hxs, rfl⟩ := toSEXPList_cons_ok h
    rw [List.map_cons, List.map_cons, Payload.toSEXPList, ih x (by simp) w hx,
      ihxs (fun y hy => ih y (by simp [hy])) hxs]
    rfl

/-- A file without names gives back what the file with them does, without the names. -/
theorem toSEXP_eraseNames {coerce : Coercion} {p : Payload} {w : SEXP} (hfits : p.fits = true)
    (hfree : p.readableAt 2 = true) (h : p.toSEXP coerce = .ok w) :
    p.eraseNames.toSEXP coerce = .ok (eraseListNames w) := by
  induction p using Payload.induction generalizing w with
  | nil | atom d =>
    cases h
    rfl
  | list names xs ih =>
    obtain ⟨as, ws, has, hws, rfl⟩ := toSEXP_list_ok h
    simp only [Payload.fits, Bool.and_eq_true, Payload.fitsList_iff] at hfits
    simp only [Payload.readableAt, Bool.and_eq_true, Payload.readableAtList_iff] at hfree
    have hlen : ∀ ns ∈ names, ns.length = xs.length := fun ns hns => by
      simpa [Option.mem_def.mp hns] using hfits.1.2
    have hlist := toSEXPList_eraseNames
      (fun x hx w => ih x hx (hfits.2 x hx) (hfree.2 x hx)) hws
    rw [Payload.eraseNames, Payload.eraseNamesList_eq_map, Payload.toSEXP, hlist,
      eraseListNames, stripAttrib_attachNames hlen has, eraseListNamesList_eq_map]
    rfl
  | array d dn v hd hn hv => simp [Payload.readableAt] at hfree

/-- A value of the documented class without arrays at any depth. -/
structure ArrayFreeValue extends DocumentedValue where
  arrayFree : value.everywhere (fun v => (v.attribOf R_DimSymbol).isNil) = true

/-- Version 2 has room for it. -/
theorem payload_readableAt {v : SEXP} {p : Payload}
    (hfree : v.everywhere (fun v => (v.attribOf R_DimSymbol).isNil) = true)
    (hp : payload v = some p) : p.readableAt 2 = true := by
  refine payload_induction (P := fun v p =>
      v.everywhere (fun v => (v.attribOf R_DimSymbol).isNil) = true → p.readableAt 2 = true)
    (Q := fun v p =>
      v.everywhere (fun v => (v.attribOf R_DimSymbol).isNil) = true → p.readableAt 2 = true)
    ?_ v hp hfree
  constructor
  case nil | atom =>
    intros
    rfl
  case list =>
    intro xs as ps hps hfree
    have hall : ∀ p ∈ ps, p.readableAt 2 = true := by
      have helements : ∀ x ∈ xs, _ := fun x hx => everywhere_element hfree hx
      clear hfree
      induction hps with
      | nil => simp
      | cons hx _ ih =>
        rw [List.forall_mem_cons]
        exact ⟨hx (helements _ (by simp)), ih fun y hy => helements y (by simp [hy])⟩
    simp [Payload.readableAt, Payload.readableAtList_iff.mpr hall]
  case plain => exact fun v p _ hv => hv
  case array =>
    intro v d dn p hd _ _ _ _ hfree
    exact absurd (isNil_iff.mp (everywhere_iff.mp hfree).1) hd

/-- Without dims a documented list has names or nothing. -/
theorem tags_of_arrayFree {v : SEXP} (hv : v.isVector = true) (hw : v.WellFormed)
    (hdoc : v.everywhere documentedHere = true) (hd : v.attribOf R_DimSymbol = .nil) :
    ∀ p ∈ v.attrib, p.1 = R_NamesSymbol := by
  obtain ⟨hnodup, hnil, -, hdimnames⟩ := wellFormed_vector hw hv
  intro p hp
  have hpresent (s : Symbol) (hs : v.attribOf s = .nil) : p.1 ≠ s := by
    rintro rfl
    rw [attribOf, lookup_of_mem hnodup hp] at hs
    exact hnil p hp hs
  have htags := documented_tags hdoc p hp
  simpa [hpresent _ hd, hpresent _ (hdimnames hd)] using htags

theorem identical_eraseListNames (v : SEXP) (hw : v.WellFormed)
    (hdoc : v.everywhere documentedHere = true)
    (hfree : v.everywhere (fun v => (v.attribOf R_DimSymbol).isNil) = true) :
    identical (eraseListNames v) (eraseListNames (retained v)) = true := by
  induction v using SEXP.induction with
  | nil =>
    rw [retained_plain rfl, retainedValue]
    rfl
  | atom d as =>
    have hsame := identical_retained (.atom d as) hw hdoc
    rw [retained_atom] at hsame ⊢
    exact hsame
  | vec xs as ihx iha =>
    have hdim := isNil_iff.mp (everywhere_iff.mp hfree).1
    have htags := tags_of_arrayFree rfl hw hdoc hdim
    have hretained : stripAttrib R_NamesSymbol (retained (.vec xs as)).attrib = [] := by
      rw [retained_plain hdim]
      exact stripAttrib_eq_nil (tag_retainedValue _)
    have hlist := identicalList_map_map (g := eraseListNames ∘ retained) fun x hx =>
      ihx x hx (everywhere_element hw hx) (everywhere_element hdoc hx) (everywhere_element hfree hx)
    have hnames : stripAttrib R_NamesSymbol as = [] := stripAttrib_eq_nil htags
    rw [retained_vec, eraseListNames, eraseListNames, hretained, hnames,
      eraseListNamesList_eq_map, eraseListNamesList_eq_map, List.map_map, identical]
    simpa [identicalAttrib] using hlist
  | other o as iha => rw [documented_not_other] at hdoc; contradiction

/-- In `version`, what is written for `v` is taken off the input, whatever follows, and gives
back a value identical to `w`. -/
def RoundTripsAt (coerce : Coercion) (version : ℕ) (v w : SEXP) : Prop :=
  ∃ bytes, (∀ out : ByteFile,
      exec (writeSEXP v version) out = (.ok (), ⟨out.bytes ++ bytes⟩)) ∧
    ∀ (st : ReadState) (t : Bytes), ∃ x st',
      exec (readSEXP coerce version) { st with input := bytes ++ t } = (.ok x, st') ∧
        st'.input = t ∧ identical w x = true

/-- Versions are conservative: version 3 takes from any stream what version 2 takes, version 2
returns values without arrays, and version 1 returns them without the names of lists. -/
theorem versions_conservative (coerce : Coercion) :
    (∀ (st u : ReadState) (x : SEXP), exec (readSEXP coerce 2) st = (.ok x, u) →
      exec (readSEXP coerce 3) st = (.ok x, u)) ∧
    ∀ v : ArrayFreeValue, RoundTripsAt coerce 2 v.value v.value ∧
      RoundTripsAt coerce 1 v.value (eraseListNames v.value) := by
  refine ⟨fun st u x h => readSEXP_extends ⟨by decide, by decide⟩ h, fun v => ?_⟩
  obtain ⟨p, hp⟩ := Option.isSome_iff_exists.mp (payload_documented v.value v.documented)
  have hfits := payload_fits v.short hp
  have hreadable := payload_readableAt v.arrayFree hp
  have hvalue := payload_toSEXP coerce v.wellFormed hp
  have hwrite (version : ℕ) : Writes (writeSEXP v.value version) (p.encode version) := by
    have h := writeSEXP_payload v.value version
    rwa [hp] at h
  have hread := readSEXP_reads hfits hreadable hvalue
  have hread' := readSEXP_reads (Payload.fits_eraseNames hfits)
    (Payload.readableAt_eraseNames hreadable) (toSEXP_eraseNames hfits hreadable hvalue)
  rw [p.encode_eraseNames] at hread'
  constructor
  · exact ⟨p.encode 2, hwrite 2, fun st t => ⟨_, _, hread _ t rfl, rfl,
      identical_retained v.value v.wellFormed v.documented⟩⟩
  · exact ⟨p.encode 1, hwrite 1, fun st t => ⟨_, _, hread' _ t rfl, rfl,
      identical_eraseListNames v.value v.wellFormed v.documented v.arrayFree⟩⟩

end RCompss.Serialization
