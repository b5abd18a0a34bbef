import RCompss.Library.Exec
import RCompss.Submission.Unrolling

/-! What the rounds of `process_task` leave in memory: a row for each parameter so far, and no
string that has moved. -/
namespace RCompss.Submission
open RCompss.Library

namespace Unrolling
variable {m m' : Unrolling} {c : NumberCast} {t : TaskParameters} {n k i j : ℕ} {v w : StrVec}
  {text : RString} {value : SEXP} {type : BitVec 32} {p : Pointer}

/-- What `storeString` leaves when the string at its index is the one it has just copied. -/
def withString (m : Unrolling) (v : StrVec) (i : ℕ) (text : RString) : Unrolling :=
  { m with
    strVec := Function.update m.strVec v ((m.strVec v).pushBack text)
    charp := Function.update m.charp v ((m.charp v).set i (some ⟨v,
      ((m.strVec v).pushBack text).storage, (m.strVec v).elements.length⟩)) }

theorem storeString_eq (h : j = (m.strVec v).elements.length) :
    m.storeString v j i text = .ok (m.withString v i text) := by
  rw [storeString, h, ReservedVector.pushBack_slot]
  rfl

/-- The string of the vector `v` that is the `i`-th of its C strings. -/
def StringAt (m : Unrolling) (v : StrVec) (i : ℕ) (text : RString) : Prop :=
  ∃ slot, (m.charp v)[i]? = some (some ⟨v, slot⟩) ∧ (m.strVec v).load slot = some text

/-- Where a value is, and what is there. -/
inductive ValueAt (m : Unrolling) (c : NumberCast) (value : SEXP) (i : ℕ) (type : BitVec 32) :
    Pointer → Prop
  | int {j : ℕ} (htype : type = 0 ∨ type = 4) (hblock : m.heap[j]? = some (.int (c.int value))) :
      ValueAt m c value i type (.block j)
  | double {j : ℕ} (htype : type = 7) (hblock : m.heap[j]? = some (.double (c.real value))) :
      ValueAt m c value i type (.block j)
  | string (htype : type = 8 ∨ type = 10)
      (hstring : m.StringAt .valuesStrVec i (singleString value)) :
      ValueAt m c value i type (.charp .valuesStrVec i)

/-- The sizes that never change, and strings that never moved. -/
structure Roomy (n : ℕ) (m : Unrolling) : Prop where
  fields : m.unrolledParameters.length = numFields * n
  pValue : m.pValue.length = n
  charp : ∀ v, (m.charp v).length = n
  reserved : ∀ v, n ≤ (m.strVec v).capacity
  unmoved : ∀ v, (m.strVec v).storage = ((start n).strVec v).storage

/-- What the parameters before the `k`-th rest on is still there. -/
structure Keeps (k : ℕ) (m m' : Unrolling) : Prop where
  fields : ∀ i < k, ∀ j < numFields, m'.field i j = m.field i j
  charp : ∀ v, ∀ i < k, (m'.charp v)[i]? = (m.charp v)[i]?
  strings : ∀ v slot text, (m.strVec v).load slot = some text →
    (m'.strVec v).load slot = some text
  heap : ∀ (j : ℕ) b, m.heap[j]? = some b → m'.heap[j]? = some b

theorem Keeps.trans {m₁ m₂ m₃ : Unrolling} (h : Keeps k m₁ m₂) (h' : Keeps k m₂ m₃) :
    Keeps k m₁ m₃ where
  fields i hi j hj := (h'.fields i hi j hj).trans (h.fields i hi j hj)
  charp v i hi := (h'.charp v i hi).trans (h.charp v i hi)
  strings v slot text ht := h'.strings v slot text (h.strings v slot text ht)
  heap j b hb := h'.heap j b (h.heap j b hb)

theorem StringAt.keep (hm : Keeps k m m') (hi : i < k) (h : m.StringAt v i text) :
    m'.StringAt v i text := by
  obtain ⟨slot, hslot, htext⟩ := h
  exact ⟨slot, (hm.charp v i hi).trans hslot, hm.strings v slot text htext⟩

theorem ValueAt.keep (hm : Keeps k m m') (hi : i < k) (h : m.ValueAt c value i type p) :
    m'.ValueAt c value i type p := by
  cases h with
  | int htype hblock => exact .int htype (hm.heap _ _ hblock)
  | double htype hblock => exact .double htype (hm.heap _ _ hblock)
  | string htype hstring => exact .string htype (hstring.keep hm hi)

theorem Roomy.setField (hm : Roomy n m) {p : Option Pointer} : Roomy n (m.setField i k p) where
  fields := (List.length_set ..).trans hm.fields
  pValue := hm.pValue
  charp := hm.charp
  reserved := hm.reserved
  unmoved := hm.unmoved

theorem Roomy.newBlock (hm : Roomy n m) {b : Block} : Roomy n (m.newBlock i b) where
  fields := hm.fields
  pValue := (List.length_set ..).trans hm.pValue
  charp := hm.charp
  reserved := hm.reserved
  unmoved := hm.unmoved

/-- A vector with fewer strings than parameters takes one more where it is. -/
theorem Roomy.withString (hm : Roomy n m) (hv : (m.strVec v).elements.length < n)
    (text : RString) :
    Roomy n (m.withString v i text) where
  fields := hm.fields
  pValue := hm.pValue
  charp w := by
    by_cases hw : w = v
    · subst hw
      simp [Unrolling.withString, hm.charp]
    · simp [Unrolling.withString, hw, hm.charp]
  reserved w := by
    have hroom := hm.reserved v
    by_cases hw : w = v
    · subst hw
      simpa [Unrolling.withString, ReservedVector.pushBack_capacity (hv.trans_le hroom)]
    · simpa [Unrolling.withString, hw] using hm.reserved w
  unmoved w := by
    have hroom := hm.reserved v
    by_cases hw : w = v
    · subst hw
      simp [Unrolling.withString, ReservedVector.pushBack_storage (hv.trans_le hroom), hm.unmoved]
    · simp [Unrolling.withString, hw, hm.unmoved]

theorem field_setField_ne {i' k' : ℕ} (hk : k < numFields) (hk' : k' < numFields)
    (hne : i' ≠ i ∨ k' ≠ k) {p : Option Pointer} :
    (m.setField i k p).field i' k' = m.field i' k' := by
  have hplace : numFields * i + k ≠ numFields * i' + k' := by
    unfold numFields at hk hk' ⊢
    omega
  unfold field setField
  rw [List.getElem?_set_ne hplace]

theorem Keeps.setField (hj : j < numFields) {p : Option Pointer} :
    Keeps k m (m.setField k j p) where
  fields _ hi _ hj' := field_setField_ne hj hj' (.inl hi.ne)
  charp _ _ _ := rfl
  strings _ _ _ ht := ht
  heap _ _ hb := hb

theorem Keeps.newBlock {b : Block} : Keeps k m (m.newBlock k b) where
  fields _ _ _ _ := rfl
  charp _ _ _ := rfl
  strings _ _ _ ht := ht
  heap j _ hb := by
    obtain ⟨hj, -⟩ := List.getElem?_eq_some_iff.mp hb
    exact (List.getElem?_append_left hj).trans hb

theorem Keeps.withString (hm : Roomy n m) (hv : (m.strVec v).elements.length < n) :
    Keeps k m (m.withString v k text) where
  fields _ _ _ _ := rfl
  charp w i hi := by
    by_cases hw : w = v
    · subst hw
      simp [Unrolling.withString, List.getElem?_set_ne hi.ne']
    · simp [Unrolling.withString, hw]
  strings w slot text ht := by
    by_cases hw : w = v
    · subst hw
      simpa [Unrolling.withString] using
        ReservedVector.load_pushBack (hv.trans_le (hm.reserved w)) ht
    · simpa [Unrolling.withString, hw] using ht
  heap _ _ hb := hb

theorem stringAt_withString (hm : Roomy n m) (hi : i < n) (text : RString) :
    (m.withString v i text).StringAt v i text := by
  have hlen : i < (m.charp v).length := (hm.charp v).symm ▸ hi
  refine ⟨⟨((m.strVec v).pushBack text).storage, (m.strVec v).elements.length⟩, ?_, ?_⟩
  · simp [withString, List.getElem?_set_self hlen]
  · simp [withString]

theorem Roomy.setPValue (hm : Roomy n m) {p : Option Pointer} {count : ℕ} :
    Roomy n { m with pValue := m.pValue.set i p, numOfStringArgs := count } where
  fields := hm.fields
  pValue := (List.length_set ..).trans hm.pValue
  charp := hm.charp
  reserved := hm.reserved
  unmoved := hm.unmoved

theorem pValue_set (hm : Roomy n m) (hi : i < n) {p : Option Pointer} :
    ((m.pValue.set i p)[i]?).join = p := by
  rw [List.getElem?_set_self (hm.pValue.symm ▸ hi)]
  rfl

/-- What is stored of the values before the `k`-th, as far as the vector of strings goes. -/
def Counted (m : Unrolling) (k : ℕ) : Prop :=
  (m.strVec .valuesStrVec).elements.length = m.numOfStringArgs ∧ m.numOfStringArgs ≤ k

/-- A value has been stored, and nothing else has changed. -/
structure ValueStored (c : NumberCast) (n k : ℕ) (value : SEXP) (type : BitVec 32)
    (m m' : Unrolling) : Prop where
  roomy : Roomy n m'
  keeps : Keeps k m m'
  counted : m'.Counted (k + 1)
  strVec : ∀ v ≠ .valuesStrVec, m'.strVec v = m.strVec v
  stored : ∃ p, (m'.pValue[k]?).join = some p ∧ m'.ValueAt c value k type p

theorem ValueStored.block (hm : Roomy n m) (hcount : m.Counted k) (hk : k < n) {b : Block}
    (hat : ∀ j, (m.newBlock k b).heap[j]? = some b → (m.newBlock k b).ValueAt c value k type
      (.block j)) :
    ValueStored c n k value type m (m.newBlock k b) where
  roomy := hm.newBlock
  keeps := .newBlock
  counted := ⟨hcount.1, hcount.2.trans k.le_succ⟩
  strVec _ _ := rfl
  stored := ⟨.block m.heap.length, pValue_set hm hk, hat _ (by simp [Unrolling.newBlock])⟩

theorem marshalParameter_toNat {x : ProcessedValue} : marshalParameter x type.toNat =
    if type = 0 ∨ type = 4 then asNumber "integer" x
    else if type = 7 then asNumber "double" x
    else if type = 8 ∨ type = 10 then asString x
    else .error .undefined := by
  have htype (k : ℕ) (hk : k < 2 ^ 32) : type.toNat = k ↔ type = BitVec.ofNat 32 k := by
    rw [← BitVec.toNat_inj, BitVec.toNat_ofNat, Nat.mod_eq_of_lt hk]
  have h0 : type.toNat = 0 ↔ type = 0 := htype 0 (by decide)
  have h4 : type.toNat = 4 ↔ type = 4 := htype 4 (by decide)
  have h7 : type.toNat = 7 ↔ type = 7 := htype 7 (by decide)
  have h8 : type.toNat = 8 ↔ type = 8 := htype 8 (by decide)
  have h10 : type.toNat = 10 ↔ type = 10 := htype 10 (by decide)
  simp only [marshalParameter, h0, h4, h7, h8, h10]

/-- A value is stored if it is of the kind that its type code asks for. -/
theorem storeValue_spec (c : NumberCast) (value : SEXP) (type : BitVec 32) (hm : Roomy n m)
    (hcount : m.Counted k) (hk : k < n) :
    match marshalParameter (.value value) type.toNat with
    | .ok () => ∃ m', m.storeValue c k value type = .ok m' ∧ ValueStored c n k value type m m'
    | .error e => m.storeValue c k value type = .error e := by
  rw [marshalParameter_toNat, storeValue]
  split_ifs with hint hdouble hstring
  · cases asNumber "integer" (.value value) with
    | error e => rfl
    | ok u => exact ⟨_, rfl, .block hm hcount hk fun _ hj => .int hint hj⟩
  · cases asNumber "double" (.value value) with
    | error e => rfl
    | ok u => exact ⟨_, rfl, .block hm hcount hk fun _ hj => .double hdouble hj⟩
  · cases asString (.value value) with
    | error e => rfl
    | ok u =>
      have hblock := hm.newBlock (i := k)
        (b := .unset ((singleString value).bytes.length + 1))
      have hroom : (m.strVec .valuesStrVec).elements.length < n := by
        rw [hcount.1]
        exact hcount.2.trans_lt hk
      refine ⟨_, except_bind_eq_ok.mpr ⟨u, rfl, except_bind_eq_ok.mpr
        ⟨_, storeString_eq hcount.1.symm, rfl⟩⟩, ?_⟩
      have hstored := hblock.withString (i := k) hroom (singleString value)
      refine ⟨hstored.setPValue, ?_, ?_, ?_, ?_⟩
      · exact Keeps.newBlock.trans (.trans (.withString hblock hroom)
          ⟨fun _ _ _ _ => rfl, fun _ _ _ => rfl, fun _ _ _ ht => ht, fun _ _ hb => hb⟩)
      · refine ⟨?_, Nat.succ_le_succ hcount.2⟩
        simp [withString, Unrolling.newBlock, hcount.1]
      · intro v hv
        simp [withString, hv, Unrolling.newBlock]
      · refine ⟨_, pValue_set hstored hk, .string hstring ?_⟩
        obtain ⟨slot, hslot, htext⟩ :=
          stringAt_withString (v := .valuesStrVec) hblock hk (singleString value)
        exact ⟨slot, hslot, htext⟩
  · rfl

def withText (m : Unrolling) (v : StrVec) (j i : ℕ) (text : CharSXP) : Unrolling :=
  (m.withString v i (stringOf text)).setField i j (some (.charp v i))

theorem storeText_eq {texts : List CharSXP} {text : CharSXP} (htext : texts[i]? = some text)
    (hcount : (m.strVec v).elements.length = i) :
    m.storeText v j i texts = .ok (m.withText v j i text) := by
  unfold storeText
  rw [htext]
  exact except_bind_eq_ok.mpr ⟨_, storeString_eq hcount.symm, rfl⟩

/-- A later state, with room as before. -/
structure Grown (n k : ℕ) (m m' : Unrolling) : Prop where
  roomy : Roomy n m'
  keeps : Keeps k m m'

theorem Grown.setField {m₀ : Unrolling} (h : Grown n k m₀ m) (hj : j < numFields)
    {p : Option Pointer} : Grown n k m₀ (m.setField k j p) where
  roomy := h.roomy.setField
  keeps := h.keeps.trans (.setField hj)

theorem Grown.withText {m₀ : Unrolling} (h : Grown n k m₀ m)
    (hv : (m.strVec v).elements.length < n) (hj : j < numFields) {text : CharSXP} :
    Grown n k m₀ (m.withText v j k text) where
  roomy := (h.roomy.withString hv _).setField
  keeps := h.keeps.trans ((Keeps.withString h.roomy hv).trans (.setField hj))

/-- The fields that point to integers, and those that point to texts. -/
def intFields : List (IntVec × ℕ) :=
  [(.compssTypes, 1), (.compssDirections, 2), (.compssStreams, 3), (.keepRenames, 8)]

def textFields (t : TaskParameters) : List (StrVec × ℕ × List CharSXP) :=
  [(.prefixStrVec, 4, t.compssPrefixes), (.nameStrVec, 5, t.names),
    (.contentStrVec, 6, t.contentTypes), (.weightStrVec, 7, t.weights)]

/-- The `i`-th parameter as it lies in memory. -/
structure Row (m : Unrolling) (c : NumberCast) (t : TaskParameters) (i : ℕ) : Prop where
  value : ∃ value type p, t.values[i]? = some value ∧ t.compssTypes[i]? = some type ∧
    m.field i 0 = some p ∧ m.ValueAt c value i type p
  ints : ∀ f ∈ intFields, m.field i f.2 = some (.int f.1 i)
  texts : ∀ f ∈ textFields t, ∃ text, f.2.2[i]? = some text ∧
    m.field i f.2.1 = some (.charp f.1 i) ∧ m.StringAt f.1 i (stringOf text)

theorem Row.keep (hm : Keeps k m m') (hi : i < k) (h : m.Row c t i) : m'.Row c t i where
  value := by
    obtain ⟨value, type, p, hvalue, htype, hp, hat⟩ := h.value
    exact ⟨value, type, p, hvalue, htype, (hm.fields i hi 0 (by decide)).trans hp, hat.keep hm hi⟩
  ints f hf := by
    have hplace : f.2 < numFields := (by decide : ∀ f ∈ intFields, f.2 < numFields) f hf
    exact (hm.fields i hi f.2 hplace).trans (h.ints f hf)
  texts f hf := by
    have hplace : f.2.1 < numFields := by
      revert f
      simp [textFields, numFields]
    obtain ⟨text, htext, hp, hat⟩ := h.texts f hf
    exact ⟨text, htext, (hm.fields i hi f.2.1 hplace).trans hp, hat.keep hm hi⟩

/-- The state after `k` rounds. -/
structure Unrolled (c : NumberCast) (t : TaskParameters) (k : ℕ) (m : Unrolling) : Prop where
  roomy : Roomy t.values.length m
  counted : m.Counted k
  stored : ∀ v ≠ .valuesStrVec, (m.strVec v).elements.length = k
  rows : ∀ i < k, m.Row c t i

theorem unrolled_start : Unrolled c t 0 (start t.values.length) where
  roomy := {
    fields := List.length_replicate
    pValue := List.length_replicate
    charp _ := List.length_replicate
    reserved _ := ReservedVector.le_reserve_capacity
    unmoved _ := rfl }
  counted := ⟨by simp [start, ReservedVector.empty], le_rfl⟩
  stored _ _ := by simp [start, ReservedVector.empty]
  rows i hi := absurd hi (Nat.not_lt_zero i)

/-- The rest of a round, once the value is stored. -/
def finish (m : Unrolling) (k : ℕ) (compssPrefix name content weight : CharSXP) : Unrolling :=
  (((((((m.setField k 0 (m.pValue[k]?).join).setField k 1 (some (.int .compssTypes k))).setField
    k 2 (some (.int .compssDirections k))).setField k 3 (some (.int .compssStreams k))).withText
    .prefixStrVec 4 k compssPrefix).withText .nameStrVec 5 k name).withText
    .contentStrVec 6 k content).withText .weightStrVec 7 k weight |>.setField
    k 8 (some (.int .keepRenames k))

section
variable {compssPrefix name content weight : CharSXP}

/-- The text that a round puts into a vector. -/
def roundText (compssPrefix name content weight : CharSXP) : StrVec → CharSXP
  | .prefixStrVec => compssPrefix
  | .nameStrVec => name
  | .contentStrVec => content
  | _ => weight

theorem finish_strVec (hv : v ≠ .valuesStrVec) :
    (m.finish k compssPrefix name content weight).strVec v =
      (m.strVec v).pushBack (stringOf (roundText compssPrefix name content weight v)) := by
  cases v <;> first | contradiction | rfl

theorem finish_charp (hv : v ≠ .valuesStrVec) :
    (m.finish k compssPrefix name content weight).charp v = (m.charp v).set k (some ⟨v,
      ((m.strVec v).pushBack (stringOf (roundText compssPrefix name content weight v))).storage,
      (m.strVec v).elements.length⟩) := by
  cases v <;> first | contradiction | rfl

/-- The nine fields of the parameter that a round is about. -/
theorem finish_fields (hm : Roomy n m) (hk : k < n) :
    (List.range numFields).map ((m.finish k compssPrefix name content weight).field k) =
      [(m.pValue[k]?).join, some (.int .compssTypes k), some (.int .compssDirections k),
        some (.int .compssStreams k), some (.charp .prefixStrVec k),
        some (.charp .nameStrVec k), some (.charp .contentStrVec k),
        some (.charp .weightStrVec k), some (.int .keepRenames k)] := by
  have hplace (j : ℕ) (hj : j < 9) : 9 * k + j < m.unrolledParameters.length := by
    rw [hm.fields]
    unfold numFields
    omega
  have hfirst : 9 * k < m.unrolledParameters.length := hplace 0 (by decide)
  simp [numFields, List.range_succ, field, finish, withText, withString, setField, hfirst,
    hplace]

theorem finish_field (hm : Roomy n m) (hk : k < n) (hj : j < numFields) :
    (m.finish k compssPrefix name content weight).field k j =
      ([(m.pValue[k]?).join, some (.int .compssTypes k), some (.int .compssDirections k),
        some (.int .compssStreams k), some (.charp .prefixStrVec k),
        some (.charp .nameStrVec k), some (.charp .contentStrVec k),
        some (.charp .weightStrVec k), some (.int .keepRenames k)][j]?).join := by
  rw [← finish_fields hm hk, List.getElem?_map, List.getElem?_range hj]
  rfl

/-- All four vectors have room for one more string. -/
theorem finish_grown {m₀ : Unrolling} (h : Grown n k m₀ m) (hk : k < n)
    (hstored : ∀ v ≠ .valuesStrVec, (m.strVec v).elements.length = k) :
    Grown n k m₀ (m.finish k compssPrefix name content weight) := by
  have hroom (v : StrVec) (hv : v ≠ .valuesStrVec) : (m.strVec v).elements.length < n := by
    rw [hstored v hv]
    exact hk
  unfold finish
  have hfield (j : ℕ) (hj : j < 9) : j < numFields := hj
  refine (Grown.withText (Grown.withText (Grown.withText (Grown.withText ?_ ?_
    (hfield 4 (by decide))) ?_ (hfield 5 (by decide))) ?_ (hfield 6 (by decide))) ?_
    (hfield 7 (by decide))).setField (hfield 8 (by decide))
  · exact (((h.setField (hfield 0 (by decide))).setField (hfield 1 (by decide))).setField
      (hfield 2 (by decide))).setField (hfield 3 (by decide))
  · exact hroom .prefixStrVec (by decide)
  · exact hroom .nameStrVec (by decide)
  · exact hroom .contentStrVec (by decide)
  · exact hroom .weightStrVec (by decide)

/-- A text is found where its round has put it. -/
theorem finish_stringAt (hm : Roomy n m) (hk : k < n) (hv : v ≠ .valuesStrVec) :
    (m.finish k compssPrefix name content weight).StringAt v k
      (stringOf (roundText compssPrefix name content weight v)) := by
  have hlen : k < (m.charp v).length := (hm.charp v).symm ▸ hk
  refine ⟨_, by rw [finish_charp hv, List.getElem?_set_self hlen], ?_⟩
  rw [finish_strVec hv]
  exact ReservedVector.load_pushBack_last

/-- The parameter of a round lies in memory after it. -/
theorem finish_row (hm : Roomy n m) (hk : k < n) (hvalue : t.values[k]? = some value)
    (htype : t.compssTypes[k]? = some type) (hp : (m.pValue[k]?).join = some p)
    (hat : m.ValueAt c value k type p) (hpre : t.compssPrefixes[k]? = some compssPrefix)
    (hname : t.names[k]? = some name) (hcontent : t.contentTypes[k]? = some content)
    (hweight : t.weights[k]? = some weight) :
    (m.finish k compssPrefix name content weight).Row c t k where
  value := by
    refine ⟨value, type, p, hvalue, htype, (finish_field hm hk (by decide)).trans hp, ?_⟩
    cases hat with
    | int htype hblock => exact .int htype hblock
    | double htype hblock => exact .double htype hblock
    | string htype hstring => exact .string htype hstring
  ints := by
    simp only [intFields, List.forall_mem_cons, List.not_mem_nil, false_implies, implies_true,
      and_true]
    exact ⟨finish_field hm hk (by decide), finish_field hm hk (by decide),
      finish_field hm hk (by decide), finish_field hm hk (by decide)⟩
  texts := by
    simp only [textFields, List.forall_mem_cons, List.not_mem_nil, false_implies, implies_true,
      and_true]
    exact ⟨⟨_, hpre, finish_field hm hk (by decide), finish_stringAt hm hk (by decide)⟩,
      ⟨_, hname, finish_field hm hk (by decide), finish_stringAt hm hk (by decide)⟩,
      ⟨_, hcontent, finish_field hm hk (by decide), finish_stringAt hm hk (by decide)⟩,
      ⟨_, hweight, finish_field hm hk (by decide), finish_stringAt hm hk (by decide)⟩⟩

theorem round_eq (hvalue : t.values[k]? = some value) (htype : t.compssTypes[k]? = some type)
    (hpre : t.compssPrefixes[k]? = some compssPrefix) (hname : t.names[k]? = some name)
    (hcontent : t.contentTypes[k]? = some content) (hweight : t.weights[k]? = some weight)
    (hstore : m.storeValue c k value type = .ok m')
    (hstored : ∀ v ≠ .valuesStrVec, (m'.strVec v).elements.length = k) :
    m.round c t k = .ok (m'.finish k compssPrefix name content weight) := by
  unfold round
  rw [hvalue, htype]
  refine except_bind_eq_ok.mpr ⟨m', hstore, ?_⟩
  refine except_bind_eq_ok.mpr ⟨_, storeText_eq hpre (hstored .prefixStrVec (by decide)), ?_⟩
  refine except_bind_eq_ok.mpr ⟨_, storeText_eq hname (hstored .nameStrVec (by decide)), ?_⟩
  refine except_bind_eq_ok.mpr ⟨_, storeText_eq hcontent (hstored .contentStrVec (by decide)), ?_⟩
  exact except_bind_eq_ok.mpr ⟨_, storeText_eq hweight (hstored .weightStrVec (by decide)), rfl⟩

/-- With the rest of its round, a stored value is one more parameter in memory. -/
theorem finish_unrolled (h : Unrolled c t k m)
    (hnew : ValueStored c t.values.length k value type m m') (hvalue : t.values[k]? = some value)
    (htype : t.compssTypes[k]? = some type) (hpre : t.compssPrefixes[k]? = some compssPrefix)
    (hname : t.names[k]? = some name) (hcontent : t.contentTypes[k]? = some content)
    (hweight : t.weights[k]? = some weight)
    (hstored : ∀ v ≠ .valuesStrVec, (m'.strVec v).elements.length = k) :
    Unrolled c t (k + 1) (m'.finish k compssPrefix name content weight) := by
  obtain ⟨hk, -⟩ := List.getElem?_eq_some_iff.mp hvalue
  obtain ⟨p, hp, hat⟩ := hnew.stored
  have hgrown : Grown t.values.length k m (m'.finish k compssPrefix name content weight) :=
    finish_grown ⟨hnew.roomy, hnew.keeps⟩ hk hstored
  constructor
  · exact hgrown.roomy
  · exact hnew.counted
  · intro v hv
    rw [finish_strVec hv, ReservedVector.pushBack_elements, List.length_append, hstored v hv]
    rfl
  · intro i hi
    obtain hlt | rfl := Nat.lt_succ_iff_lt_or_eq.mp hi
    · exact (h.rows i hlt).keep hgrown.keeps hlt
    · exact finish_row hnew.roomy hk hvalue htype hp hat hpre hname hcontent hweight

end

/-- A round adds a parameter to those in memory, or raises what its value makes it raise. -/
theorem round_spec (h : Unrolled c t k m) (hlong : MetadataLong t)
    (hvalue : t.values[k]? = some value) (htype : t.compssTypes[k]? = some type) :
    match marshalParameter (.value value) type.toNat with
    | .ok () => ∃ m', m.round c t k = .ok m' ∧ Unrolled c t (k + 1) m'
    | .error e => m.round c t k = .error e := by
  obtain ⟨hk, -⟩ := List.getElem?_eq_some_iff.mp hvalue
  have hstore := storeValue_spec c value type h.roomy h.counted hk
  cases hmarshal : marshalParameter (.value value) type.toNat with
  | error e =>
    rw [hmarshal] at hstore
    simp only at hstore ⊢
    unfold round
    rw [hvalue, htype]
    simp only [hstore]
    rfl
  | ok u =>
    rw [hmarshal] at hstore
    obtain ⟨m', hrun, hnew⟩ := hstore
    have hcount (v : StrVec) (hv : v ≠ .valuesStrVec) : (m'.strVec v).elements.length = k := by
      rw [hnew.strVec v hv, h.stored v hv]
    have hpre := List.getElem?_eq_getElem (hk.trans_le hlong.compssPrefixes)
    have hname := List.getElem?_eq_getElem (hk.trans_le hlong.names)
    have hcontent := List.getElem?_eq_getElem (hk.trans_le hlong.contentTypes)
    have hweight := List.getElem?_eq_getElem (hk.trans_le hlong.weights)
    exact ⟨_, round_eq hvalue htype hpre hname hcontent hweight hrun hcount,
      finish_unrolled h hnew hvalue htype hpre hname hcontent hweight hcount⟩

/-- The loop does as the list of its values makes it do. -/
theorem rounds_spec (hlong : MetadataLong t) (hn : k + n = t.values.length)
    (h : Unrolled c t k m) :
    match marshalParameters ((t.values.drop k).map .value)
      ((t.compssTypes.drop k).map BitVec.toNat) with
    | .ok () => ∃ m', rounds c t m k n = .ok m' ∧ Unrolled c t t.values.length m'
    | .error e => rounds c t m k n = .error e := by
  induction n generalizing k m with
  | zero =>
    obtain rfl : k = t.values.length := hn
    rw [List.drop_length]
    exact ⟨m, rfl, h⟩
  | succ n ih =>
    have hk : k < t.values.length := by omega
    have htypes : k < t.compssTypes.length := hk.trans_le hlong.compssTypes
    have hround := round_spec h hlong (List.getElem?_eq_getElem hk)
      (List.getElem?_eq_getElem htypes)
    rw [List.drop_eq_getElem_cons hk, List.drop_eq_getElem_cons htypes, List.map_cons,
      List.map_cons, marshalParameters]
    cases hmarshal : marshalParameter (.value t.values[k]) t.compssTypes[k].toNat with
    | error e =>
      rw [hmarshal] at hround
      simp only at hround
      unfold rounds
      rw [hround]
      rfl
    | ok u =>
      rw [hmarshal] at hround
      obtain ⟨m', hrun, hnext⟩ := hround
      have hrest := ih (by omega) hnext
      unfold rounds
      rw [hrun]
      exact hrest

end Unrolling

end RCompss.Submission
