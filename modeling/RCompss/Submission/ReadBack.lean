import RCompss.Submission.ParameterRows

/-! The runtime reads each parameter of a task as it was. -/
namespace RCompss.Submission
open RCompss.Library

namespace Unrolling
variable {m : Unrolling} {c : NumberCast} {t : TaskParameters} {i : ℕ} {v : StrVec}
  {text : RString} {value : SEXP} {type : BitVec 32} {p : Pointer}

/-- A string of R ends where its C string does. -/
theorem loadString_eq (h : m.StringAt v i text) : m.loadString (.charp v i) = some text.bytes := by
  obtain ⟨slot, hslot, htext⟩ := h
  have hnul : (text.bytes ++ [0]).takeWhile (· ≠ 0) = text.bytes := by
    rw [List.takeWhile_append_of_pos]
    · simp
    · intro b hb
      simp only [ne_eq, decide_not, Bool.not_eq_eq_eq_not, Bool.not_true, decide_eq_false_iff_not]
      exact fun h => text.noNul (h ▸ hb)
  rw [loadString, hslot]
  simp only [Option.join_some, Option.bind_eq_bind, Option.bind_some, htext, hnul]
  rfl

theorem loadValue_eq (h : m.ValueAt c value i type p) :
    m.loadValue t type p = valueUnder c value type := by
  unfold loadValue valueUnder
  cases h with
  | int htype hblock =>
    rw [if_pos htype, if_pos htype, loadInt, hblock]
    rfl
  | double htype hblock =>
    subst htype
    rw [loadDouble, hblock]
    rfl
  | string htype hstring =>
    rw [loadString_eq hstring]
    obtain rfl | rfl := htype
    · rfl
    · rfl

/-- What lies in memory is what the runtime reads. -/
theorem readParameter_eq (h : m.Row c t i) : m.readParameter t i = t.parameter c i := by
  obtain ⟨value, type, p, hvalue, htype, hp, hat⟩ := h.value
  have hint (v : IntVec) : m.loadInt t (.int v i) = (t.ints v)[i]? := rfl
  have hints := h.ints
  have htexts := h.texts
  simp only [intFields, List.forall_mem_cons, List.not_mem_nil, false_implies, implies_true,
    and_true] at hints
  simp only [textFields, List.forall_mem_cons, List.not_mem_nil, false_implies, implies_true,
    and_true] at htexts
  obtain ⟨h1, h2, h3, h8⟩ := hints
  obtain ⟨⟨_, hpre, h4, hat4⟩, ⟨_, hname, h5, hat5⟩, ⟨_, hcontent, h6, hat6⟩,
    ⟨_, hweight, h7, hat7⟩⟩ := htexts
  unfold readParameter TaskParameters.parameter
  simp only [h1, h2, h3, h4, h5, h6, h7, h8, hp, hint, TaskParameters.ints, hvalue, htype,
    loadValue_eq hat, hpre, loadString_eq hat4, hname, loadString_eq hat5, hcontent,
    loadString_eq hat6, hweight, loadString_eq hat7, Option.bind_eq_bind, Option.bind_some]

theorem valueUnder_of_valueAt (h : m.ValueAt c value i type p) :
    ∃ x, valueUnder c value type = some x := by
  unfold valueUnder
  cases h with
  | int htype hblock => exact ⟨_, if_pos htype⟩
  | double htype hblock =>
    subst htype
    exact ⟨_, rfl⟩
  | string htype hstring => obtain rfl | rfl := htype <;> exact ⟨_, rfl⟩

/-- No field of a parameter is missing. -/
theorem parameter_exists (hlong : MetadataLong t) (h : m.Row c t i) :
    ∃ x, t.parameter c i = some x := by
  obtain ⟨value, type, p, hvalue, htype, -, hat⟩ := h.value
  obtain ⟨hi, -⟩ := List.getElem?_eq_some_iff.mp hvalue
  obtain ⟨x, hx⟩ := valueUnder_of_valueAt hat
  unfold TaskParameters.parameter
  rw [htype, hvalue, List.getElem?_eq_getElem (hi.trans_le hlong.compssDirections),
    List.getElem?_eq_getElem (hi.trans_le hlong.compssStreams),
    List.getElem?_eq_getElem (hi.trans_le hlong.compssPrefixes),
    List.getElem?_eq_getElem (hi.trans_le hlong.names),
    List.getElem?_eq_getElem (hi.trans_le hlong.contentTypes),
    List.getElem?_eq_getElem (hi.trans_le hlong.weights),
    List.getElem?_eq_getElem (hi.trans_le hlong.keepRenames)]
  simp only [Option.bind_eq_bind, Option.bind_some, hx]
  exact ⟨_, rfl⟩

end Unrolling

/-- The runtime is called if each value suits its type code; what it then reads is each parameter
as it is, and no string has moved since the vectors were reserved. -/
theorem parameters_read_back (c : NumberCast) (t : TaskParameters) (hlong : MetadataLong t) :
    ((∃ m, t.unroll c = .ok m) ↔ marshalParameters (t.values.map .value)
      (t.compssTypes.map BitVec.toNat) = .ok ()) ∧
    ∀ m, t.unroll c = .ok m →
      (∀ v, (m.strVec v).storage = ((Unrolling.start t.values.length).strVec v).storage ∧
        (m.strVec v).elements.length ≤ t.values.length) ∧
      ∀ i < t.values.length, ∃ x, t.parameter c i = some x ∧ m.readParameter t i = some x := by
  have hrun := Unrolling.rounds_spec (c := c) hlong (Nat.zero_add _) Unrolling.unrolled_start
  rw [List.drop_zero, List.drop_zero] at hrun
  cases hmarshal : marshalParameters (t.values.map .value) (t.compssTypes.map BitVec.toNat) with
  | error e =>
    rw [hmarshal] at hrun
    simp only at hrun
    unfold TaskParameters.unroll
    rw [hrun]
    simp
  | ok u =>
    rw [hmarshal] at hrun
    obtain ⟨m, hm, hunrolled⟩ := hrun
    refine ⟨iff_of_true ⟨m, hm⟩ rfl, fun m' hm' => ?_⟩
    obtain rfl : m = m' := Except.ok.inj (hm.symm.trans hm')
    refine ⟨fun v => ⟨hunrolled.roomy.unmoved v, ?_⟩, fun i hi => ?_⟩
    · by_cases hv : v = .valuesStrVec
      · rw [hv, hunrolled.counted.1]
        exact hunrolled.counted.2
      · rw [hunrolled.stored v hv]
    · have hrow := hunrolled.rows i hi
      obtain ⟨x, hx⟩ := Unrolling.parameter_exists hlong hrow
      exact ⟨x, hx, (Unrolling.readParameter_eq hrow).trans hx⟩

/-- A string between two numbers: `list("q", 3L, "r")` under the types 8, 4, 10. -/
def mixedParameters : TaskParameters where
  values := [.atom (.str [some ⟨[113], by decide, by decide⟩]) [], .atom (.int [3]) [],
    .atom (.str [some ⟨[114], by decide, by decide⟩]) []]
  names := List.replicate 3 none
  compssTypes := [8, 4, 10]
  compssDirections := List.replicate 3 0
  compssStreams := List.replicate 3 3
  compssPrefixes := List.replicate 3 none
  contentTypes := List.replicate 3 none
  weights := List.replicate 3 none
  keepRenames := List.replicate 3 0

/-- The second string is the value of the third parameter. -/
theorem mixed_parameters_read_back : ∃ m x,
    mixedParameters.unroll ⟨fun _ => 0, fun _ => 0⟩ = .ok m ∧
    m.readParameter mixedParameters 2 = some x ∧ x.value = .string [114] := by
  have h := parameters_read_back ⟨fun _ => 0, fun _ => 0⟩ mixedParameters
    ⟨by decide, by decide, by decide, by decide, by decide, by decide, by decide, by decide⟩
  obtain ⟨m, hm⟩ := h.1.mpr rfl
  obtain ⟨x, hx, hread⟩ := (h.2 m hm).2 2 (by decide)
  refine ⟨m, x, hm, hread, ?_⟩
  cases hx
  rfl

end RCompss.Submission
