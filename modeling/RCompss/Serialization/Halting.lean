import RCompss.Library.CutShort
import RCompss.Serialization.Consumption
import RCompss.Serialization.ReaderFormat

/-! The reader halts: on `b` bytes its recursion needs no more than `b / 4 + 1` calls, and no
bound beyond that is ever felt. -/
namespace RCompss.Serialization
open RCompss.Library

section
variable {coerce : SEXP.Coercion} {formatVersion : ℕ}

theorem readTagged_cutShort {next next' : ReadM SEXP} (h : CutShort .outOfFuel next next')
    (tag : Option ValueType) : CutShort .outOfFuel (readTagged coerce formatVersion next tag)
      (readTagged coerce formatVersion next' tag) := by
  rcases tag with _ | tag
  · exact .refl _
  cases tag with
  | kArray =>
    refine CutShort.ite (.refl _) ?_
    exact h.bind fun dims => h.bind fun dimnames => h.bind fun value => .refl _
  | kList =>
    rw [readTagged, readTagged]
    refine (CutShort.refl readU32).bind fun len => (CutShort.refl protectCounted).bind fun _ => ?_
    exact (CutShort.refl _).bind fun attrib => (h.repeatM len).bind fun xs => .refl _
  | kNil | kLogical | kInteger | kReal | kString => exact .refl _

/-- A larger bound on the recursion changes only the runs that hit the smaller one. -/
theorem readSEXPWithin_cutShort {fuel fuel' : ℕ} (h : fuel ≤ fuel') :
    CutShort .outOfFuel (readSEXPWithin coerce formatVersion fuel)
      (readSEXPWithin coerce formatVersion fuel') := by
  induction fuel generalizing fuel' with
  | zero => exact cutShort_throw _
  | succ fuel ih =>
    obtain ⟨fuel', rfl⟩ := Nat.exists_eq_add_of_lt h
    rw [readSEXPWithin, readSEXPWithin]
    refine (CutShort.refl _).bind fun _ => (CutShort.refl readU32).bind fun tag => ?_
    exact readTagged_cutShort (ih (Nat.le_add_right _ _)) _

end

/-- On any stream the reader comes to an end of its own, by returning or by raising, within one
call for each four bytes and one more; every bound on its recursion from there on gives the same
run. -/
theorem readSEXP_halts (coerce : SEXP.Coercion) (formatVersion : ℕ) (st : ReadState) :
    ∃ outcome t, exec (readSEXP coerce formatVersion) st = (outcome, t) ∧
      outcome ≠ .error .outOfFuel ∧ t.calls ≤ st.calls + (st.input.length / 4 + 1) ∧
      ∀ fuel, st.input.length / 4 < fuel →
        exec (readSEXPWithin coerce formatVersion fuel) st = (outcome, t) := by
  let enough := st.input.length / 4 + 1
  have hspends := readSEXPWithin_spends coerce formatVersion enough st.input.length (by omega) st
    le_rfl
  rcases hrun : exec (readSEXPWithin coerce formatVersion enough) st with ⟨outcome, t⟩
  have hends : outcome ≠ .error .outOfFuel ∧ t.calls ≤ st.calls + enough := by
    unfold Meets at hspends
    rw [hrun] at hspends
    rcases outcome with e | w
    · refine ⟨fun h => hspends.1 (Except.error.inj h), ?_⟩
      have hcalls := hspends.2
      unfold ReadState.potential at hcalls
      omega
    · refine ⟨nofun, ?_⟩
      have hcalls := hspends.2
      unfold ReadState.potential at hcalls
      omega
  have hsame : ∀ fuel, enough ≤ fuel →
      exec (readSEXPWithin coerce formatVersion fuel) st = (outcome, t) := by
    intro fuel hfuel
    rw [← hrun]
    apply ((readSEXPWithin_cutShort hfuel).eq_of_ne _).symm
    rw [hrun]
    exact hends.1
  refine ⟨outcome, t, ?_, hends.1, hends.2, hsame⟩
  rw [readSEXP, exec_bind_ok (exec_get st)]
  exact hsame _ (by omega)

/-- Nothing but array tags. -/
def arrayTags (k : ℕ) : Bytes := (List.replicate k (u32 ValueType.kArray.toU32)).flatten

theorem length_arrayTags (k : ℕ) : (arrayTags k).length = 4 * k := by
  simp [arrayTags, u32, length_toLE, mul_comm]

/-- Each tag makes one call more, which finds no value in the end. -/
theorem readSEXPWithin_arrayTags (coerce : SEXP.Coercion) {k fuel : ℕ} (hfuel : k < fuel)
    {st : ReadState} (hst : st.input = arrayTags k) :
    exec (readSEXPWithin coerce 3 fuel) st =
      (.error .readFailed, { st with input := [], calls := st.calls + (k + 1) }) := by
  induction k generalizing fuel st with
  | zero =>
    obtain ⟨fuel, rfl⟩ := Nat.exists_eq_add_of_lt hfuel
    obtain ⟨input, protectCount, stack, calls⟩ := st
    obtain rfl : input = [] := hst
    rw [readSEXPWithin, exec_bind_ok (exec_modify _ _)]
    rfl
  | succ k ih =>
    obtain ⟨fuel, rfl⟩ := Nat.exists_eq_add_of_lt hfuel
    rw [readSEXPWithin, exec_bind_ok (exec_modify _ _)]
    have htag := readTag_reads .kArray { st with calls := st.calls + 1 } (arrayTags k) hst
    rw [exec_bind_ok htag, ValueType.ofU32_toU32, readTagged, if_neg (by decide)]
    rw [exec_bind_error (ih (by omega) rfl)]
    have hcalls : st.calls + 1 + (k + 1) = st.calls + (k + 1 + 1) := by omega
    simp [ReadState.after, hcalls]

/-- The bound is reached: nested arrays make a call for each four bytes and one more. -/
theorem calls_arrayTags (coerce : SEXP.Coercion) (k : ℕ) :
    (exec (readSEXP coerce 3) (.open (arrayTags k))).2.calls =
      (arrayTags k).length / 4 + 1 := by
  have hlen : ((ReadState.open (arrayTags k)).input.length : ℕ) = 4 * k := length_arrayTags k
  rw [readSEXP, exec_bind_ok (exec_get _), readSEXPWithin_arrayTags coerce (k := k) (by omega) rfl,
    length_arrayTags, Nat.mul_div_cancel_left k (by decide)]
  exact Nat.zero_add _

end RCompss.Serialization
