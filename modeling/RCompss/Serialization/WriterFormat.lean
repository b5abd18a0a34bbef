import RCompss.Serialization.Emission

/-! What the writer emits: the encoding of the payload it finds in a value, or an error
when some element has no encoding. -/
namespace RCompss.Serialization
open RCompss.Library

mutual

/-- The part of a value that the format carries; `none` when a type in it has no tag. -/
def payload (v : SEXP) : Option Payload :=
  if _h : v.attribOf R_DimSymbol ≠ .nil then do
    let dims ← payload (v.attribOf R_DimSymbol)
    let dimnames ← payload (v.attribOf R_DimNamesSymbol)
    return .array dims dimnames (← payloadValue v)
  else payloadValue v
termination_by 2 * sizeOf v + 1
decreasing_by
  all_goals try omega
  all_goals
    have hd := SEXP.sizeOf_attribOf_lt (t := R_DimSymbol) _h
    have hn := SEXP.sizeOf_attribOf_lt (t := R_DimNamesSymbol) _h
    omega

def payloadValue (v : SEXP) : Option Payload :=
  match v with
  | .nil => some .nil
  | .atom d _ => some (.atom d)
  | .vec xs as => do return .list (listNames (.vec xs as)) (← payloadList xs)
  | .other .. => none
termination_by 2 * sizeOf v

def payloadList (xs : List SEXP) : Option (List Payload) :=
  match xs with
  | [] => some []
  | x :: xs => do return (← payload x) :: (← payloadList xs)
termination_by 2 * sizeOf xs

end

theorem payload_plain {v : SEXP} (h : v.attribOf R_DimSymbol = .nil) :
    payload v = payloadValue v := by
  rw [payload, dif_neg (not_not.mpr h)]

theorem payload_nil : payload .nil = some .nil := by rw [payload_plain rfl, payloadValue]

/-- Nothing is rejected for its array wrapper when its attributes are accepted. -/
theorem payload_isSome {v : SEXP} (hv : (payloadValue v).isSome = true)
    (h : ∀ p ∈ v.attrib, (payload p.2).isSome = true) : (payload v).isSome = true := by
  have hattr (s : Symbol) : ∃ p, payload (v.attribOf s) = some p := by
    by_cases hs : v.attribOf s = .nil
    · exact ⟨.nil, hs ▸ payload_nil⟩
    · exact Option.isSome_iff_exists.mp (h _ (SEXP.attribOf_mem hs))
  by_cases hd : v.attribOf R_DimSymbol = .nil
  · rwa [payload_plain hd]
  · obtain ⟨d, hpd⟩ := hattr R_DimSymbol
    obtain ⟨dn, hpn⟩ := hattr R_DimNamesSymbol
    obtain ⟨p, hp⟩ := Option.isSome_iff_exists.mp hv
    rw [payload, dif_pos hd, hpd, hpn, hp]
    rfl

theorem payloadList_isSome {xs : List SEXP} (h : ∀ x ∈ xs, (payload x).isSome = true) :
    (payloadList xs).isSome = true := by
  induction xs with
  | nil => rw [payloadList]; rfl
  | cons x xs ih =>
    obtain ⟨p, hp⟩ := Option.isSome_iff_exists.mp (h x (by simp))
    obtain ⟨ps, hps⟩ := Option.isSome_iff_exists.mp (ih fun y hy => h y (by simp [hy]))
    rw [payloadList, hp, hps]
    rfl

/-- One rule for each way a payload is found in a value; `Q` speaks of the value without
its array wrapper. -/
structure PayloadRules (P Q : SEXP → Payload → Prop) : Prop where
  nil : Q .nil .nil
  atom : ∀ d as, Q (.atom d as) (.atom d)
  list : ∀ xs as ps, List.Forall₂ P xs ps → Q (.vec xs as) (.list (listNames (.vec xs as)) ps)
  plain : ∀ v p, v.attribOf R_DimSymbol = .nil → Q v p → P v p
  array : ∀ v d dn p, v.attribOf R_DimSymbol ≠ .nil → payloadValue v = some p →
    P (v.attribOf R_DimSymbol) d → P (v.attribOf R_DimNamesSymbol) dn → Q v p →
    P v (.array d dn p)

mutual

/-- Induction over the payload found in a value. -/
theorem payload_induction {P Q : SEXP → Payload → Prop} (rules : PayloadRules P Q) (v : SEXP)
    {p : Payload} (hp : payload v = some p) : P v p := by
  rw [payload] at hp
  split at hp
  next hd =>
    simp only [Option.bind_eq_bind, Option.bind_eq_some_iff, Option.pure_def,
      Option.some.injEq] at hp
    obtain ⟨d, hpd, dn, hpn, q, hq, rfl⟩ := hp
    exact rules.array v d dn q hd hq (payload_induction rules _ hpd)
      (payload_induction rules _ hpn) (payloadValue_induction rules v hq)
  next hd => exact rules.plain v p (by simpa using hd) (payloadValue_induction rules v hp)
termination_by 2 * sizeOf v + 1
decreasing_by
  all_goals try omega
  all_goals
    have hlt := fun t => SEXP.sizeOf_attribOf_lt (t := t) ‹v.attribOf R_DimSymbol ≠ .nil›
    have hd := hlt R_DimSymbol
    have hn := hlt R_DimNamesSymbol
    omega

theorem payloadValue_induction {P Q : SEXP → Payload → Prop} (rules : PayloadRules P Q)
    (v : SEXP) {p : Payload} (hp : payloadValue v = some p) : Q v p := by
  cases v with
  | nil =>
    rw [payloadValue] at hp
    cases hp
    exact rules.nil
  | atom d as =>
    rw [payloadValue] at hp
    cases hp
    exact rules.atom d as
  | vec xs as =>
    rw [payloadValue] at hp
    simp only [Option.bind_eq_bind, Option.bind_eq_some_iff, Option.pure_def,
      Option.some.injEq] at hp
    obtain ⟨ps, hps, rfl⟩ := hp
    exact rules.list xs as ps (payloadList_induction rules xs hps)
  | other o as => rw [payloadValue] at hp; contradiction
termination_by 2 * sizeOf v

theorem payloadList_induction {P Q : SEXP → Payload → Prop} (rules : PayloadRules P Q)
    (xs : List SEXP) {ps : List Payload} (hp : payloadList xs = some ps) :
    List.Forall₂ P xs ps := by
  cases xs with
  | nil =>
    rw [payloadList] at hp
    cases hp
    exact .nil
  | cons x xs =>
    rw [payloadList] at hp
    simp only [Option.bind_eq_bind, Option.bind_eq_some_iff, Option.pure_def,
      Option.some.injEq] at hp
    obtain ⟨p, hp, ps', hps, rfl⟩ := hp
    exact .cons (payload_induction rules x hp) (payloadList_induction rules xs hps)
termination_by 2 * sizeOf xs

end

theorem flatten_flatMap {α : Type} {g : α → List Bytes} {f : α → Bytes}
    (h : ∀ a, (g a).flatten = f a) (as : List α) : (as.flatMap g).flatten = as.flatMap f := by
  induction as with
  | nil => rfl
  | cons a as ih => rw [List.flatMap_cons, List.flatten_append, h, ih, List.flatMap_cons]

theorem flatten_stringPieces (s : CharSXP) : (stringPieces s).flatten = encodeString s := by
  cases s with
  | none => simp [stringPieces, encodeString]
  | some str =>
    simp only [stringPieces, encodeString]
    split
    next => simp
    next h =>
      have hb : str.bytes = [] := List.eq_nil_of_length_eq_zero (by omega)
      simp [hb]

theorem flatten_atomicPieces (d : Atomic) : (atomicPieces d).flatten = encodeAtomic d := by
  cases d with
  | lgl d | int d => simp [atomicPieces, encodeAtomic, List.flatMap_def]
  | real d => simp [atomicPieces, encodeAtomic]
  | str d => simp [atomicPieces, encodeAtomic, flatten_flatMap flatten_stringPieces]

theorem flatten_namesPieces (version : ℕ) (names : Option (List CharSXP)) :
    (namesPieces version names).flatten = encodeNames version names := by
  unfold namesPieces encodeNames
  split
  · rfl
  · cases names <;> simp [flatten_flatMap flatten_stringPieces]

mutual

/-- The writer spells out the payload that it finds, or stops short where there is none. -/
theorem whole_emission (v : SEXP) (version : ℕ) :
    (emission version v).whole = (payload v).map (Payload.encode version) := by
  rw [payload, emission]
  split
  next h =>
    rw [Emission.whole_andThen, Emission.whole_andThen, Emission.whole_andThen, Emission.whole_of,
      whole_emission (v.attribOf R_DimSymbol) version,
      whole_emission (v.attribOf R_DimNamesSymbol) version, whole_valueEmission v version]
    rcases payload (v.attribOf R_DimSymbol) with _ | d
    · rfl
    rcases payload (v.attribOf R_DimNamesSymbol) with _ | dn
    · rfl
    rcases payloadValue v with _ | p
    · rfl
    · simp [Payload.encode]
  next h => exact whole_valueEmission v version
termination_by 2 * sizeOf v + 1
decreasing_by
  all_goals try omega
  all_goals
    have hlt := fun t => SEXP.sizeOf_attribOf_lt (t := t) ‹v.attribOf R_DimSymbol ≠ .nil›
    have hd := hlt R_DimSymbol
    have hn := hlt R_DimNamesSymbol
    omega

theorem whole_valueEmission (v : SEXP) (version : ℕ) :
    (valueEmission version v).whole = (payloadValue v).map (Payload.encode version) := by
  cases v with
  | nil =>
    rw [valueEmission, payloadValue, Emission.whole_of]
    simp [Payload.encode]
  | atom d as =>
    rw [valueEmission, payloadValue, Emission.whole_of, flatten_atomicPieces]
    rfl
  | vec xs as =>
    have hx := whole_elementsEmission xs version
    rw [valueEmission, payloadValue, Emission.whole_andThen, Emission.whole_of]
    rcases hp : payloadList xs with _ | ps <;> rw [hp] at hx
    · rw [hx]
      rfl
    · rw [hx.2]
      simp [Payload.encode, flatten_namesPieces, hx.1]
  | other o as =>
    rw [valueEmission, payloadValue]
    rfl
termination_by 2 * sizeOf v

theorem whole_elementsEmission (xs : List SEXP) (version : ℕ) :
    match payloadList xs with
    | some ps => ps.length = xs.length ∧
        (elementsEmission version xs).whole = some (Payload.encodeList version ps)
    | none => (elementsEmission version xs).whole = none := by
  cases xs with
  | nil =>
    rw [payloadList, elementsEmission, Emission.whole_of]
    exact ⟨rfl, rfl⟩
  | cons x xs =>
    have hx := whole_emission x version
    have hxs := whole_elementsEmission xs version
    rw [payloadList, elementsEmission, Emission.whole_andThen, hx]
    rcases payload x with _ | p
    · rfl
    rcases hps : payloadList xs with _ | ps <;> rw [hps] at hxs
    · rw [hxs]
      rfl
    · rw [hxs.2]
      exact ⟨congrArg (· + 1) hxs.1, rfl⟩
termination_by 2 * sizeOf xs

end

/-- The computation appends `b` to any file and returns. -/
def Writes (x : WriteM ByteFile Unit) (b : Bytes) : Prop :=
  ∀ out, exec x out = (.ok (), ⟨out.bytes ++ b⟩)

/-- The computation ends in the error for a type without a tag. -/
def Unsupported (x : WriteM ByteFile Unit) : Prop :=
  ∀ out, ∃ out', exec x out = (.error .unsupportedType, out')

theorem exec_forM_writeBytes (pieces : List Bytes) (out : ByteFile) :
    exec (pieces.forM writeBytes) out = (.ok (), ⟨out.bytes ++ pieces.flatten⟩) := by
  induction pieces generalizing out with
  | nil => simp
  | cons b pieces ih =>
    have hb : exec (writeBytes b) out = (.ok (), ⟨out.bytes ++ b⟩) := by
      simp only [writeBytes, exec_bind, exec_modify, exec_get]
      rfl
    have hpieces := ih ⟨out.bytes ++ b⟩
    simp only [List.forM_eq_forM] at hpieces ⊢
    rw [List.forM_cons, exec_bind_ok hb, hpieces, List.flatten_cons, List.append_assoc]

/-- A file takes all the pieces, up to where the emission stops. -/
theorem exec_emit (e : Emission) (out : ByteFile) :
    exec e.emit out =
      (if e.complete then .ok () else .error .unsupportedType, ⟨out.bytes ++ e.bytes⟩) := by
  rw [Emission.emit, exec_bind_ok (exec_forM_writeBytes e.pieces out), Emission.bytes]
  cases e.complete <;> rfl

/-- The two ways a value can be written, with what the payload found in it says. -/
def WritesPayload (x : WriteM ByteFile Unit) (version : ℕ) : Option Payload → Prop
  | some p => Writes x (p.encode version)
  | none => Unsupported x

theorem writeSEXP_payload (v : SEXP) (version : ℕ) :
    WritesPayload (writeSEXP v version) version (payload v) := by
  have hwhole := whole_emission v version
  rw [writeSEXP_emission]
  rcases hp : payload v with _ | p <;> rw [hp] at hwhole
  · intro out
    rw [exec_emit, Emission.whole_eq_none.mp hwhole]
    exact ⟨_, rfl⟩
  · obtain ⟨hcomplete, hbytes⟩ := Emission.whole_eq_some.mp hwhole
    intro out
    rw [exec_emit, hcomplete, hbytes]
    rfl

/-- The bytes of a file: magic, version and payload. -/
def fileBytes (version : ℕ) (p : Payload) : Bytes :=
  u32 kMagic ++ u32 version ++ p.encode version

theorem whole_fileEmission (v : SEXP) :
    (fileEmission v).whole = (payload v).map (fileBytes kVersion) := by
  rw [fileEmission, Emission.whole_andThen, Emission.whole_of, whole_emission]
  cases payload v <;> simp [fileBytes]

theorem serializeSEXP_writes {v : SEXP} {p : Payload} (h : payload v = some p) :
    Writes (serializeSEXP v) (fileBytes kVersion p) := by
  have hwhole := whole_fileEmission v
  rw [h] at hwhole
  obtain ⟨hcomplete, hbytes⟩ := Emission.whole_eq_some.mp hwhole
  intro out
  rw [serializeSEXP_emission, exec_emit, hcomplete, hbytes]
  rfl

theorem serializeSEXP_unsupported {v : SEXP} (h : payload v = none) :
    Unsupported (serializeSEXP v) := by
  have hwhole := whole_fileEmission v
  rw [h] at hwhole
  intro out
  rw [serializeSEXP_emission, exec_emit, Emission.whole_eq_none.mp hwhole]
  exact ⟨_, rfl⟩

end RCompss.Serialization
