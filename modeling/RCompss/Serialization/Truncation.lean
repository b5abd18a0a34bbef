import RCompss.Serialization.Consumption
import RCompss.Serialization.Counted

/-! Files that end too early: behind a cut anywhere in a file, or behind an element that the
writer had no encoding for, the reader fails. -/
namespace RCompss.Serialization
open RCompss.Library SEXP

theorem unserializeSEXP_follows (coerce : Coercion) (t : Bytes) :
    Follows (Longer t) (Starved t) (unserializeSEXP coerce) (unserializeSEXP coerce) := by
  refine readU32_follows.bind fun magic => Follows.ite (fun _ => follows_throw _ _) fun _ => ?_
  refine readU32_follows.bind fun version => Follows.ite (fun _ => follows_throw _ _) fun _ => ?_
  refine (readSEXP_follows (Extends.refl version)).bind fun result => ?_
  rintro _ st' rfl w u h
  rw [exec_bind_ok (exec_get _)] at h
  rw [meets_bind, meets_get]
  have hpop := (UNPROTECT_follows (t := t) st'.protectCount).bind
    (f := fun _ => pure result) fun _ => Follows.pure result
  exact hpop _ st' rfl w u h

/-- Opening the file and reading it fails for want of bytes. -/
def Rejects (coerce : Coercion) (bytes : Bytes) : Prop :=
  ∃ st, exec (unserializeSEXP coerce) (.open bytes) = (.error .readFailed, st)

/-- Opening the file and reading it raises an error. -/
def Throws (coerce : Coercion) (bytes : Bytes) : Prop :=
  ∃ e st, exec (unserializeSEXP coerce) (.open bytes) = (.error e, st)

theorem Rejects.throws {coerce : Coercion} {bytes : Bytes} (h : Rejects coerce bytes) :
    Throws coerce bytes := ⟨_, h⟩

/-- A file that is read to its end is not read when its end is missing. -/
theorem rejects_of_truncated {coerce : Coercion} {p t : Bytes} {w : SEXP} {st : ReadState}
    (h : exec (unserializeSEXP coerce) (.open (p ++ t)) = (.ok w, st)) (hend : st.input = [])
    (ht : t ≠ []) : Rejects coerce p := by
  have hfollows := unserializeSEXP_follows coerce t (.open (p ++ t)) (.open p) rfl w st h
  have hspends := unserializeSEXP_spends coerce _ (.open p) le_rfl
  rcases (hfollows.and hspends).run with ⟨w', u, -, ⟨-, hread⟩, -⟩ | ⟨e, u, hrun, hshort, hfuel, -⟩
  · have hinput : [] = u.input ++ t := hend.symm.trans (congrArg ReadState.input hread)
    exact absurd (List.append_eq_nil_iff.mp hinput.symm).2 ht
  · rcases hshort with hout | ⟨rfl, -⟩
    · exact absurd hout hfuel
    · exact ⟨u, hrun⟩

/-- On `b` and no more the computation fails for want of bytes. -/
def Starves {α : Type} (x : ReadM α) (b : Bytes) : Prop :=
  ∀ st : ReadState, st.input = b → ∃ t, exec x st = (.error .readFailed, t)

section
variable {α β : Type} {x : ReadM α} {f : α → ReadM β} {b b' : Bytes}

theorem Starves.bind (h : Starves x b) (f : α → ReadM β) : Starves (x >>= f) b := by
  intro st hst
  obtain ⟨t, ht⟩ := h st hst
  exact ⟨t, exec_bind_error ht⟩

/-- A part that is read, then one that starves. -/
theorem Reads.starves {u : StackUse} {c : ℕ} {a : α} (hx : Reads x b u c a)
    (hf : Starves (f a) b') : Starves (x >>= f) (b ++ b') := by
  intro st hst
  rw [exec_bind_ok (hx st b' hst)]
  exact hf _ rfl

theorem readBytes_starves {size : ℕ} (h : b.length < size) : Starves (readBytes size) b := by
  intro st hst
  refine ⟨{ st with input := [] }, ?_⟩
  rw [readBytes, exec_bind_ok (exec_get st), if_neg (by rw [hst]; omega)]
  rfl

theorem Reads.vector_starves {f : ℕ → ReadM α} {n : ℕ} (hn : n < 2 ^ 32) (h : Starves (f n) b) :
    Starves (do
      let len ← readU32
      protectCounted
      f len) (u32 n ++ b) :=
  (readU32_reads hn).starves (protectCounted_reads.starves (f := fun _ => f n) h)

end

section
variable {coerce : Coercion} {version fuel : ℕ}

/-- Where nothing is left there is no tag. -/
theorem readSEXPWithin_nil : Starves (readSEXPWithin coerce version (fuel + 1)) [] := by
  intro st hst
  rw [readSEXPWithin, exec_bind_ok (exec_modify _ st)]
  exact ((readBytes_starves (b := []) (by decide)).bind _).bind _ _ hst

theorem readSEXPWithin_starves (t : ValueType) {b : Bytes}
    (h : Starves (readTagged coerce version (readSEXPWithin coerce version fuel) (some t)) b) :
    Starves (readSEXPWithin coerce version (fuel + 1)) (u32 t.toU32 ++ b) := by
  intro st hst
  rw [readSEXPWithin, exec_bind_ok (exec_modify _ st)]
  rw [← ValueType.ofU32_toU32 t] at h
  exact (readTag_reads t).starves (f := fun tag => readTagged coerce version
    (readSEXPWithin coerce version fuel) (ValueType.ofU32 tag)) h _ hst

end

theorem complete_emission_iff {v : SEXP} :
    (emission kVersion v).complete = false ↔ payload v = none := by
  rw [← Emission.whole_eq_none, whole_emission, Option.map_eq_none_iff]

namespace Emission

theorem of_nil_andThen (e : Emission) : (of []).andThen e = e := rfl

theorem andThen_of_nil (e : Emission) : e.andThen (of []) = e := by
  obtain ⟨pieces, _ | _⟩ := e <;> simp [andThen, of]

theorem andThen_assoc (e e' e'' : Emission) :
    (e.andThen e').andThen e'' = e.andThen (e'.andThen e'') := by
  obtain ⟨pieces, _ | _⟩ := e <;> obtain ⟨pieces', _ | _⟩ := e' <;> simp [andThen]

/-- The computation starves in the first part, or reads that and starves in the second. -/
theorem starves_andThen {α β : Type} {x : ReadM α} {f : α → ReadM β} {e e' : Emission}
    (hc : (e.andThen e').complete = false) (hx : e.complete = false → Starves x e.bytes)
    (hread : e.complete = true → ∃ u c a, Reads x e.bytes u c a)
    (hf : e.complete = true → e'.complete = false → ∀ a, Starves (f a) e'.bytes) :
    Starves (x >>= f) (e.andThen e').bytes := by
  rcases h : e.complete with _ | _
  · rw [andThen_of_incomplete h]
    exact (hx h).bind f
  · obtain ⟨u, c, a, ha⟩ := hread h
    rw [complete_andThen, h, Bool.true_and] at hc
    rw [bytes_andThen h]
    exact ha.starves (hf h hc a)

end Emission

section
variable (coerce : Coercion)

/-- A part that was written whole is read back. -/
theorem readSEXPWithin_complete {v : SEXP} {fuel : ℕ} (hw : v.WellFormed)
    (hs : headersFit v = true) (hfuel : (emission kVersion v).bytes.length ≤ fuel)
    (hc : (emission kVersion v).complete = true) :
    ∃ u c w, Reads (readSEXPWithin coerce kVersion fuel) (emission kVersion v).bytes u c w := by
  have hwhole := Emission.whole_eq_some.mpr ⟨hc, rfl⟩
  rw [whole_emission, Option.map_eq_some_iff] at hwhole
  obtain ⟨p, hp, hbytes⟩ := hwhole
  rw [← hbytes] at hfuel ⊢
  have hdepth := p.depth_le_length kVersion
  exact ⟨_, _, _, readSEXPWithin_reads p (fits_of_headersFit hs hp) p.readableAt_kVersion
    (by omega) (payload_toSEXP coerce hw hp)⟩

mutual

/-- Where the writer stopped in front of an element without an encoding, the reader finds
no tag. -/
theorem emission_starves (v : SEXP) {fuel : ℕ} (hw : v.WellFormed)
    (hs : headersFit v = true) (hfuel : (emission kVersion v).bytes.length < fuel)
    (hc : (emission kVersion v).complete = false) :
    Starves (readSEXPWithin coerce kVersion fuel) (emission kVersion v).bytes := by
  have hparts := emission.eq_def kVersion v
  split at hparts
  next h =>
    have hw' := everywhere_attribOf hw rfl
    obtain ⟨hsd, hsn, hsv⟩ := (headersFit_array h).mp hs
    rw [hparts] at hc hfuel ⊢
    rw [Emission.bytes_andThen rfl, Emission.bytes_of, List.flatten_singleton] at hfuel ⊢
    rw [Emission.complete_andThen, Emission.of, Bool.true_and] at hc
    obtain _ | fuel := fuel
    · omega
    rw [List.length_append, u32, length_toLE] at hfuel
    have hd := Emission.length_andThen (emission kVersion (v.attribOf R_DimSymbol))
      ((emission kVersion (v.attribOf R_DimNamesSymbol)).andThen (valueEmission kVersion v))
    refine readSEXPWithin_starves .kArray ?_
    rw [readTagged, if_neg (by decide)]
    refine Emission.starves_andThen hc
      (emission_starves (v.attribOf R_DimSymbol) (hw' _) hsd (by omega))
      (readSEXPWithin_complete coerce (hw' _) hsd (by omega)) fun hcd hc dims => ?_
    rw [Emission.bytes_andThen hcd, List.length_append] at hfuel
    have hn := Emission.length_andThen (emission kVersion (v.attribOf R_DimNamesSymbol))
      (valueEmission kVersion v)
    refine Emission.starves_andThen hc
      (emission_starves (v.attribOf R_DimNamesSymbol) (hw' _) hsn (by omega))
      (readSEXPWithin_complete coerce (hw' _) hsn (by omega)) fun hcn hc dimnames => ?_
    rw [Emission.bytes_andThen hcn, List.length_append] at hfuel
    exact (valueEmission_starves v hw hsv (by omega) hc).bind _
  next h =>
    rw [headersFit_plain (by simpa using h)] at hs
    rw [hparts] at hc hfuel ⊢
    exact valueEmission_starves v hw hs hfuel hc
termination_by 2 * sizeOf v + 1
decreasing_by
  all_goals try omega
  all_goals
    have hlt := fun t => SEXP.sizeOf_attribOf_lt (t := t) ‹v.attribOf R_DimSymbol ≠ .nil›
    have hd := hlt R_DimSymbol
    have hn := hlt R_DimNamesSymbol
    omega

theorem valueEmission_starves (v : SEXP) {fuel : ℕ} (hw : v.WellFormed)
    (hs : valueHeadersFit v = true)
    (hfuel : (valueEmission kVersion v).bytes.length < fuel)
    (hc : (valueEmission kVersion v).complete = false) :
    Starves (readSEXPWithin coerce kVersion fuel) (valueEmission kVersion v).bytes := by
  obtain _ | fuel := fuel
  · omega
  cases v with
  | nil | atom d as =>
    rw [valueEmission] at hc
    contradiction
  | vec xs as =>
    rw [valueHeadersFit, Bool.and_eq_true, decide_eq_true_eq] at hs
    have hnames := readNames_reads length_listNames (attachNames_listNames coerce xs as)
    rw [valueEmission, Emission.complete_andThen, Emission.of, Bool.true_and] at hc
    rw [valueEmission, Emission.bytes_andThen rfl, Emission.bytes_of, List.flatten_cons,
      List.flatten_cons, flatten_namesPieces] at hfuel ⊢
    simp only [List.length_append, u32, length_toLE] at hfuel
    rw [List.append_assoc, List.append_assoc]
    refine readSEXPWithin_starves .kList ?_
    rw [readTagged]
    refine Reads.vector_starves hs.1 (hnames.starves ?_)
    exact (elementsEmission_starves xs (fun x hx => everywhere_element hw hx) hs.2 (by omega)
      hc).bind _
  | other o as =>
    rw [valueEmission]
    exact readSEXPWithin_nil
termination_by 2 * sizeOf v

theorem elementsEmission_starves (xs : List SEXP) {fuel : ℕ} (hw : ∀ x ∈ xs, x.WellFormed)
    (hs : elementsHeadersFit xs = true)
    (hfuel : (elementsEmission kVersion xs).bytes.length < fuel)
    (hc : (elementsEmission kVersion xs).complete = false) :
    Starves (repeatM (readSEXPWithin coerce kVersion fuel) xs.length)
      (elementsEmission kVersion xs).bytes := by
  cases xs with
  | nil =>
    rw [elementsEmission] at hc
    contradiction
  | cons x xs =>
    have hx := Emission.length_andThen (emission kVersion x) (elementsEmission kVersion xs)
    rw [elementsHeadersFit, Bool.and_eq_true, Bool.or_eq_true] at hs
    rw [elementsEmission] at hc hfuel ⊢
    refine Emission.starves_andThen hc
      (emission_starves x (hw x (by simp)) hs.1 (by omega))
      (readSEXPWithin_complete coerce (hw x (by simp)) hs.1 (by omega))
      fun hcx hc w => ?_
    have hxs : elementsHeadersFit xs = true := by
      refine hs.2.resolve_left fun hnone => ?_
      rw [Option.isNone_iff_eq_none, ← complete_emission_iff] at hnone
      rw [hcx] at hnone
      contradiction
    rw [Emission.bytes_andThen hcx, List.length_append] at hfuel
    exact (elementsEmission_starves xs (fun y hy => hw y (by simp [hy])) hxs (by omega) hc).bind _
termination_by 2 * sizeOf xs

end

/-- The bytes of a write that stopped short are rejected. -/
theorem rejects_of_unsupported {v : SEXP} (hw : v.WellFormed) (hs : headersFit v = true)
    (hc : (emission kVersion v).complete = false) : Rejects coerce (fileEmission v).bytes := by
  rw [fileEmission, Emission.bytes_andThen rfl, Emission.bytes_of, List.flatten_cons,
    List.flatten_singleton, List.append_assoc]
  have hread : Starves (readSEXP coerce kVersion) (emission kVersion v).bytes := by
    intro st hst
    rw [readSEXP, exec_bind_ok (exec_get st)]
    exact emission_starves coerce v hw hs (by rw [hst]; omega) hc st hst
  have hfile : Starves (unserializeSEXP coerce)
      (u32 kMagic ++ (u32 kVersion ++ (emission kVersion v).bytes)) := by
    refine (readU32_reads (by decide)).starves ?_
    rw [if_neg (not_not.mpr rfl)]
    refine (readU32_reads (by decide)).starves ?_
    rw [if_neg (by decide)]
    exact hread.bind _
  exact hfile (.open _) rfl

end

/-- The list that the header of an unnamed list counts; other values as they are. -/
def countedList (v : SEXP) : SEXP :=
  match v with
  | .vec xs as =>
      if (SEXP.vec xs as).attribOf R_DimSymbol = .nil ∧ listNames (.vec xs as) = none then
        .vec (xs.take (xs.length % 2 ^ 32)) []
      else .vec xs as
  | v => v

theorem emission_list {xs : List SEXP} {as : List (Symbol × SEXP)}
    (hd : (SEXP.vec xs as).attribOf R_DimSymbol = .nil) (hn : listNames (.vec xs as) = none) :
    emission kVersion (.vec xs as) =
      (Emission.of [u32 ValueType.kList.toU32, u32 xs.length, u32 0]).andThen
        (elementsEmission kVersion xs) := by
  rw [emission, dif_neg (not_not.mpr hd), valueEmission, hn]
  rfl

theorem elementsEmission_append (xs ys : List SEXP) : elementsEmission kVersion (xs ++ ys) =
    (elementsEmission kVersion xs).andThen (elementsEmission kVersion ys) := by
  induction xs with
  | nil =>
    rw [List.nil_append, elementsEmission.eq_def kVersion []]
    exact (Emission.of_nil_andThen _).symm
  | cons x xs ih =>
    rw [List.cons_append, elementsEmission, elementsEmission, ih, Emission.andThen_assoc]

/-- What the writer emits begins with what it emits for the elements counted. -/
theorem emission_countedList (v : SEXP) :
    ∃ e, emission kVersion v = (emission kVersion (countedList v)).andThen e := by
  cases v with
  | nil | atom d as | other o as => exact ⟨.of [], (Emission.andThen_of_nil _).symm⟩
  | vec xs as =>
    rw [countedList]
    split
    next h =>
      refine ⟨elementsEmission kVersion (xs.drop (xs.length % 2 ^ 32)), ?_⟩
      have hlen : (xs.take (xs.length % 2 ^ 32)).length = xs.length % 2 ^ 32 := by
        rw [List.length_take, Nat.min_eq_left (Nat.mod_le _ _)]
      rw [emission_list h.1 h.2, emission_list rfl rfl, hlen, u32_mod, Emission.andThen_assoc,
        ← elementsEmission_append, List.take_append_drop]
    next => exact ⟨.of [], (Emission.andThen_of_nil _).symm⟩

theorem wellFormed_countedList {v : SEXP} (hw : v.WellFormed) : (countedList v).WellFormed := by
  cases v with
  | nil | atom d as | other o as => exact hw
  | vec xs as =>
    rw [countedList]
    split
    · refine everywhere_iff.mpr ⟨?_, fun x hx => everywhere_element hw (List.mem_of_mem_take hx),
        by simp [attrib]⟩
      have hle : xs.length ≤ 2 ^ 52 := by
        have hhere := (everywhere_iff.mp hw).1
        simp only [wellFormedHere, isVector, Bool.not_true, Bool.false_or, Bool.and_eq_true,
          decide_eq_true_eq] at hhere
        exact hhere.2
      have htake : (xs.take (xs.length % 2 ^ 32)).length ≤ xs.length := List.length_take_le' _ _
      simp [wellFormedHere, isVector, attrib, attribOf, isNil, SEXP.length]
      omega
    · exact hw

section
variable {coerce : Coercion} {v : SEXP}

/-- The writer stopped in the part that the headers count: that part is not read. -/
theorem rejects_of_counted_unsupported (coerce : Coercion) (hw : v.WellFormed)
    (hs : headersFit (countedList v) = true) (h : payload (countedList v) = none) :
    Rejects coerce (fileEmission v).bytes := by
  obtain ⟨e, he⟩ := emission_countedList v
  have hc := complete_emission_iff.mpr h
  rw [Emission.andThen_of_incomplete hc] at he
  have hfile : fileEmission v = fileEmission (countedList v) := by
    rw [fileEmission, he, fileEmission]
  rw [hfile]
  exact rejects_of_unsupported coerce (wellFormed_countedList hw) hs hc

/-- The counted part was written whole: it is read, and what follows it is not looked at. -/
theorem accepts_counted (coerce : Coercion) (hw : v.WellFormed)
    (hs : headersFit (countedList v) = true) {p : Payload} (h : payload (countedList v) = some p) :
    ∃ st, exec (unserializeSEXP coerce) (.open (fileEmission v).bytes) =
      (.ok (retained (countedList v)), st) := by
  obtain ⟨e, he⟩ := emission_countedList v
  have hwhole := whole_emission (countedList v) kVersion
  rw [h, Option.map_some, Emission.whole_eq_some] at hwhole
  have hbytes : (fileEmission v).bytes = fileBytes kVersion p ++ e.bytes := by
    rw [fileEmission, Emission.bytes_andThen rfl, he, Emission.bytes_andThen hwhole.1, hwhole.2,
      fileBytes, ← List.append_assoc]
    rfl
  rw [hbytes]
  exact ⟨_, unserializeSEXP_file (show kMinReadVersion ≤ kVersion by decide) le_rfl
    (fits_of_headersFit hs h) p.readableAt_kVersion
    (payload_toSEXP coerce (wellFormed_countedList hw) h) e.bytes⟩

/-- Every cut of the file of a value with short vectors is rejected. -/
theorem rejects_of_cut (hw : v.WellFormed) (hs : v.everywhere shortHere = true) {p : Payload}
    (hp : payload v = some p) {cut : Bytes} (hcut : cut <+: fileBytes kVersion p)
    (hne : cut ≠ fileBytes kVersion p) : Rejects coerce cut := by
  have hread := unserializeSEXP_written ⟨v, hw, hs⟩ coerce hp
  obtain ⟨t, ht⟩ := hcut
  rw [← ht] at hread hne
  refine rejects_of_truncated hread rfl ?_
  rintro rfl
  exact hne (List.append_nil cut).symm

end

/-- No strict prefix of the file of an accepted value with lengths below `2^32` is accepted,
nor what the writer had written when it raised. -/
def PartialFilesRejected (coerce : Coercion) (v : SEXP) : Prop :=
  ∃ ending bytes, exec (serializeSEXP v) (⟨[]⟩ : ByteFile) = (ending, ⟨bytes⟩) ∧
    match ending with
    | .ok () => v.everywhere shortHere = true →
        ∀ cut, cut <+: bytes → cut ≠ bytes → Throws coerce cut
    | .error _ => Throws coerce bytes

section
variable {coerce : Coercion} {v : SEXP}

theorem partialFilesRejected_of_accepted (hw : v.WellFormed) (h : payload v ≠ none) :
    PartialFilesRejected coerce v := by
  obtain ⟨p, hp⟩ := Option.ne_none_iff_exists'.mp h
  refine ⟨_, _, serializeSEXP_writes hp ⟨[]⟩, fun hshort cut hcut hne => ?_⟩
  rw [List.nil_append] at hcut hne
  exact (rejects_of_cut hw hshort hp hcut hne).throws

theorem exec_serializeSEXP_of_unsupported (h : payload v = none) :
    exec (serializeSEXP v) (⟨[]⟩ : ByteFile) =
      (.error .unsupportedType, ⟨(fileEmission v).bytes⟩) := by
  have hnone := whole_fileEmission v
  rw [h, Option.map_none, Emission.whole_eq_none] at hnone
  rw [serializeSEXP_emission, exec_emit, hnone, List.nil_append]
  rfl

/-- When the writer raises, the bytes it has written decide. -/
theorem partialFilesRejected_iff_of_unsupported (h : payload v = none) :
    PartialFilesRejected coerce v ↔ Throws coerce (fileEmission v).bytes := by
  have hraise := exec_serializeSEXP_of_unsupported h
  constructor
  · rintro ⟨ending, bytes, hrun, hthrows⟩
    rw [hraise] at hrun
    cases hrun
    exact hthrows
  · exact fun hthrows => ⟨_, _, hraise, hthrows⟩

theorem payload_countedList_of_short (hs : v.everywhere shortHere = true)
    (h : payload v = none) : payload (countedList v) = none := by
  cases v with
  | nil | atom d as | other o as => exact h
  | vec xs as =>
    rw [countedList]
    split
    next hplain =>
      have hlen : xs.length < 2 ^ 32 := of_decide_eq_true (everywhere_iff.mp hs).1
      rw [payload_plain hplain.1, payloadValue] at h
      rw [Nat.mod_eq_of_lt hlen, List.take_length, payload_plain rfl, payloadValue]
      revert h
      cases payloadList xs <;> simp
    next => exact h

theorem headersFit_countedList_of_short (hs : v.everywhere shortHere = true) :
    headersFit (countedList v) = true := by
  cases v with
  | nil | atom d as | other o as => exact headersFit_of_short _ hs
  | vec xs as =>
    rw [countedList]
    split
    · refine headersFit_of_short _ (everywhere_iff.mpr ⟨?_, fun x hx =>
        everywhere_element hs (List.mem_of_mem_take hx), by simp [attrib]⟩)
      have hlt : xs.length % 2 ^ 32 < 2 ^ 32 := Nat.mod_lt _ (by decide)
      have htake : (xs.take (xs.length % 2 ^ 32)).length ≤ xs.length % 2 ^ 32 :=
        List.length_take_le _ _
      rw [shortHere, decide_eq_true_eq, SEXP.length]
      omega
    · exact headersFit_of_short _ hs

end

/-- The writer returns; or it raises at a value that its headers count, of which none wraps but
that of `v` itself. -/
def StopsWhereCounted (v : SEXP) : Prop :=
  payload v ≠ none ∨ headersFit (countedList v) = true ∧ payload (countedList v) = none

/-- Short vectors are counted whole. -/
theorem stopsWhereCounted_of_short {v : SEXP} (hs : v.everywhere shortHere = true) :
    StopsWhereCounted v := by
  by_cases h : payload v = none
  · exact .inr ⟨headersFit_countedList_of_short hs, payload_countedList_of_short hs h⟩
  · exact .inl h

theorem partialFilesRejected_of_stops (coerce : Coercion) {v : SEXP} (hw : v.WellFormed)
    (h : StopsWhereCounted v) : PartialFilesRejected coerce v := by
  by_cases hp : payload v = none
  · obtain ⟨hfit, hnone⟩ := h.resolve_left (not_not.mpr hp)
    rw [partialFilesRejected_iff_of_unsupported hp]
    exact (rejects_of_counted_unsupported coerce hw hfit hnone).throws
  · exact partialFilesRejected_of_accepted hw hp

/-- Partial files are rejected where the writer returns or raises at a value that its headers
count, and where no header but that of `v` itself wraps, there only. -/
theorem truncated_rejected_iff (coerce : Coercion) {v : SEXP} (hw : v.WellFormed) :
    (StopsWhereCounted v → PartialFilesRejected coerce v) ∧
      (headersFit (countedList v) = true →
        (PartialFilesRejected coerce v ↔ StopsWhereCounted v)) := by
  refine ⟨partialFilesRejected_of_stops coerce hw, fun hfit => ⟨fun hrejected => ?_,
    partialFilesRejected_of_stops coerce hw⟩⟩
  by_contra hstops
  rw [StopsWhereCounted, not_or, not_not, not_and] at hstops
  obtain ⟨hp, hsome⟩ := hstops
  obtain ⟨p, hpc⟩ := Option.ne_none_iff_exists'.mp (hsome hfit)
  obtain ⟨st, hread⟩ := accepts_counted coerce hw hfit hpc
  obtain ⟨e, st', hthrows⟩ := (partialFilesRejected_iff_of_unsupported hp).mp hrejected
  rw [hread] at hthrows
  cases hthrows

/-- One element without an encoding leaves a list without one. -/
theorem payload_list_of_mem {x : SEXP} {xs : List SEXP} (hx : x ∈ xs) (h : payload x = none) :
    payload (.vec xs []) = none := by
  have hlist : payloadList xs = none := by
    induction xs with
    | nil => contradiction
    | cons y xs ih =>
      rw [payloadList]
      rcases List.mem_cons.mp hx with rfl | hmem
      · rw [h]
        rfl
      · rw [ih hmem]
        cases payload y <;> rfl
  rw [payload_plain rfl, payloadValue, hlist]
  rfl

def aClosure : SEXP := .other ⟨.CLOSXP, "function(x) x", 1⟩ []

theorem payload_aClosure : payload aClosure = none := by
  rw [aClosure, payload_plain rfl, payloadValue]

/-- `list(list(1L, function(x) x), 2L)` is not written whole, and its bytes are rejected. -/
theorem closure_in_list_rejected :
    payload (.vec [.vec [.atom (.int [1]) [], aClosure] [], .atom (.int [2]) []] []) = none ∧
      PartialFilesRejected (fun v s x => .ok (v.installAttrib s x))
        (.vec [.vec [.atom (.int [1]) [], aClosure] [], .atom (.int [2]) []] []) := by
  have hinner : payload (.vec [.atom (.int [1]) [], aClosure] []) = none :=
    payload_list_of_mem (x := aClosure) (by simp) payload_aClosure
  refine ⟨payload_list_of_mem List.mem_cons_self hinner, ?_⟩
  exact (truncated_rejected_iff _ (by decide)).1 (stopsWhereCounted_of_short (by decide))

/-- `NULL` so many times, then a closure. -/
def nullsThenClosure (n : ℕ) : SEXP := .vec (List.replicate n .nil ++ [aClosure]) []

theorem wellFormed_nullsThenClosure {n : ℕ} (h : n < 2 ^ 52) : (nullsThenClosure n).WellFormed := by
  refine everywhere_iff.mpr ⟨?_, fun x hx => ?_, by simp [nullsThenClosure, attrib]⟩
  · simp [nullsThenClosure, wellFormedHere, isVector, attrib, attribOf, isNil, SEXP.length]
    omega
  · rcases List.mem_append.mp hx with hx | hx
    · rw [List.eq_of_mem_replicate hx]
      rfl
    · rw [List.mem_singleton.mp hx]
      rfl

theorem countedList_nullsThenClosure {n : ℕ} (h : n % 2 ^ 32 = 0) (hn : 0 < n) :
    countedList (nullsThenClosure n) = .vec [.nil] [] := by
  have hlen : (List.replicate n SEXP.nil ++ [aClosure]).length % 2 ^ 32 = 1 := by
    rw [List.length_append, List.length_replicate, List.length_singleton]
    omega
  obtain ⟨m, rfl⟩ := Nat.exists_eq_add_of_lt hn
  rw [nullsThenClosure, countedList, if_pos ⟨rfl, rfl⟩, hlen, Nat.zero_add, List.replicate_succ]
  rfl

/-- Of a multiple of `2^32` `NULL`s and a closure the header counts one: what was written up to
the closure is read as `list(NULL)`. -/
theorem nulls_then_closure_accepted (coerce : Coercion) {n : ℕ} (h : n % 2 ^ 32 = 0)
    (hn : 0 < n) (hmax : n < 2 ^ 52) :
    ¬ PartialFilesRejected coerce (nullsThenClosure n) ∧
      ∃ file st, exec (serializeSEXP (nullsThenClosure n)) (⟨[]⟩ : ByteFile) =
          (.error .unsupportedType, ⟨file⟩) ∧
        exec (unserializeSEXP coerce) (.open file) = (.ok (.vec [.nil] []), st) := by
  have hp : payload (nullsThenClosure n) = none :=
    payload_list_of_mem (x := aClosure) (by simp) payload_aClosure
  have hcounted := countedList_nullsThenClosure h hn
  have hpc : payload (countedList (nullsThenClosure n)) = some (.list none [.nil]) := by
    rw [hcounted, payload_plain rfl, payloadValue, payloadList, payloadList, payload_nil]
    rfl
  have hfit : headersFit (countedList (nullsThenClosure n)) = true := by
    rw [hcounted]
    exact headersFit_of_short _ (by decide)
  obtain ⟨st, hread⟩ := accepts_counted coerce (wellFormed_nullsThenClosure hmax) hfit hpc
  have hretained : retained (.vec [.nil] []) = .vec [.nil] [] := by
    rw [retained_plain rfl, retainedValue, retainedList, retainedList, retained_eq_nil.mpr rfl]
    rfl
  rw [hcounted, hretained] at hread
  refine ⟨fun hrejected => ?_, _, st, exec_serializeSEXP_of_unsupported hp, hread⟩
  obtain ⟨e, u, hthrows⟩ := (partialFilesRejected_iff_of_unsupported hp).mp hrejected
  rw [hread] at hthrows
  cases hthrows

/-- What was written of a list of `2^32` `NULL`s and a closure is accepted. -/
theorem wrapped_partial_file_accepted :
    ∃ v : SEXP, v = nullsThenClosure (2 ^ 32) ∧ v.WellFormed ∧ ∀ coerce,
      ¬ PartialFilesRejected coerce v ∧
        ∃ file st, exec (serializeSEXP v) (⟨[]⟩ : ByteFile) = (.error .unsupportedType, ⟨file⟩) ∧
          exec (unserializeSEXP coerce) (.open file) = (.ok (.vec [.nil] []), st) :=
  ⟨_, rfl, wellFormed_nullsThenClosure (by norm_num), fun coerce =>
    nulls_then_closure_accepted coerce (by norm_num) (by norm_num) (by norm_num)⟩

end RCompss.Serialization
