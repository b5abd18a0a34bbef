import RCompss.Library.Follows
import RCompss.Serialization.Reader

/-! What the reader takes off any input at all, well formed or not: a call takes its tag, and
what follows the part taken makes no difference. -/
namespace RCompss.Serialization
open RCompss.Library

/-- Unread bytes, and four for each call made: no reading adds to this. -/
def ReadState.potential (st : ReadState) : ℕ := st.input.length + 4 * st.calls

/-- From at most `n` unread bytes the reader stays within its potential and within the bound
on its recursion; a failure can waste one call. -/
def Spends {α : Type} (n : ℕ) (x : ReadM α) : Prop :=
  ∀ st : ReadState, st.input.length ≤ n →
    Meets x st (fun _ t => t.input.length ≤ st.input.length ∧ t.potential ≤ st.potential)
      fun e t => e ≠ .outOfFuel ∧ 4 * t.calls ≤ st.potential + 4

section
variable {α β : Type} {n : ℕ}

theorem Spends.pure (a : α) : Spends n (Pure.pure a) := fun _ _ => ⟨le_rfl, le_rfl⟩

theorem spends_throw {e : SerError} (he : e ≠ .outOfFuel) : Spends n (throw e : ReadM α) := by
  intro st _
  refine ⟨he, ?_⟩
  unfold ReadState.potential
  omega

theorem Spends.bind {x : ReadM α} {f : α → ReadM β} (hx : Spends n x)
    (hf : ∀ a, Spends n (f a)) : Spends n (x >>= f) := by
  intro st hst
  rw [meets_bind]
  apply (hx st hst).imp
  intro a t ht
  refine (hf a t (ht.1.trans hst)).mono (fun b u hu => ?_) fun e u hu => ?_
  · exact ⟨hu.1.trans ht.1, hu.2.trans ht.2⟩
  · exact ⟨hu.1, hu.2.trans (Nat.add_le_add_right ht.2 4)⟩

theorem Spends.ite {c : Prop} [Decidable c] {x y : ReadM α} (hx : Spends n x)
    (hy : Spends n y) : Spends n (if c then x else y) := by
  split
  · exact hx
  · exact hy

/-- Work on the protection stack costs no input. -/
theorem spends_modify {f : ReadState → ReadState} (hinput : ∀ st, (f st).input = st.input)
    (hcalls : ∀ st, (f st).calls = st.calls) : Spends n (modify f : ReadM PUnit) := by
  intro st _
  rw [meets_modify, hinput]
  refine ⟨le_rfl, ?_⟩
  rw [ReadState.potential, ReadState.potential, hinput, hcalls]

theorem Spends.repeatM {x : ReadM α} (h : Spends n x) (k : ℕ) :
    Spends n (Library.repeatM x k) := by
  induction k with
  | zero => exact Spends.pure []
  | succ k ih => exact h.bind fun a => ih.bind fun as => Spends.pure (a :: as)

/-- A read takes its bytes, or what is left. -/
theorem readBytes_meets (size : ℕ) (st : ReadState) :
    Meets (readBytes size) st
      (fun bs t => size ≤ st.input.length ∧ bs = st.input.take size ∧
        t = { st with input := st.input.drop size })
      fun e t => st.input.length < size ∧ e = .readFailed ∧ t = { st with input := [] } := by
  unfold readBytes
  rw [meets_bind, meets_get]
  split
  next h => exact ⟨h, rfl, rfl⟩
  next h => exact ⟨by omega, rfl, rfl⟩

theorem readBytes_spends (size : ℕ) : Spends n (readBytes size) := by
  intro st _
  refine (readBytes_meets size st).mono (fun bs t h => ?_) fun e t h => ?_
  · obtain ⟨hsize, -, rfl⟩ := h
    simp only [ReadState.potential, List.length_drop]
    omega
  · obtain ⟨-, rfl, rfl⟩ := h
    simp only [ReadState.potential, ne_eq, reduceCtorEq, not_false_eq_true, true_and]
    omega

theorem readU32_spends : Spends n readU32 :=
  (readBytes_spends 4).bind fun bs => Spends.pure (ofLE bs)

theorem readI32_spends : Spends n readI32 :=
  (readBytes_spends 4).bind fun bs => Spends.pure (BitVec.ofNat 32 (ofLE bs))

theorem mkCharLen_spends (buffer : Bytes) : Spends n (mkCharLen buffer) := by
  unfold mkCharLen
  split
  · exact Spends.pure _
  · exact spends_throw (by decide)

theorem readString_spends : Spends n readString := by
  refine readI32_spends.bind fun len => ?_
  refine Spends.ite (Spends.pure none) ?_
  refine Spends.ite (spends_throw (by decide)) ?_
  change Spends n (if 0 < len.toInt then readBytes len.toNat >>= mkCharLen
    else Pure.pure [] >>= mkCharLen)
  exact Spends.ite ((readBytes_spends _).bind mkCharLen_spends)
    ((Spends.pure []).bind mkCharLen_spends)

theorem protectCounted_spends : Spends n protectCounted :=
  (spends_modify (fun _ => rfl) fun _ => rfl).bind fun _ =>
    spends_modify (fun _ => rfl) fun _ => rfl

theorem UNPROTECT_spends (k : ℕ) : Spends n (UNPROTECT k) :=
  spends_modify (fun _ => rfl) fun _ => rfl

theorem rfSetAttrib_spends (coerce : SEXP.Coercion) (v : SEXP) (s : Symbol) (x : SEXP) :
    Spends n (rfSetAttrib coerce v s x) := by
  unfold rfSetAttrib
  split
  · exact Spends.pure _
  · exact spends_throw (by simp)

theorem readNames_spends (coerce : SEXP.Coercion) (len : ℕ) :
    Spends n (readNames coerce len) := by
  refine readU32_spends.bind fun hasNames => ?_
  refine Spends.ite (spends_throw (by decide)) (Spends.ite ?_ (Spends.pure []))
  refine protectCounted_spends.bind fun _ => (readString_spends.repeatM len).bind fun nms => ?_
  refine (rfSetAttrib_spends coerce _ _ _).bind fun list => ?_
  refine (UNPROTECT_spends 1).bind fun _ => Spends.bind ?_ fun _ => Spends.pure list.attrib
  exact spends_modify (fun _ => rfl) fun _ => rfl

/-- One tag, then the part it announces, each part by a call that spends. -/
theorem readTagged_spends {coerce : SEXP.Coercion} {formatVersion : ℕ} {next : ReadM SEXP}
    (h : Spends n next) (tag : Option ValueType) :
    Spends n (readTagged coerce formatVersion next tag) := by
  have vector {f : ℕ → ReadM SEXP} (hf : ∀ len, Spends n (f len)) :
      Spends n (do
        let len ← readU32
        protectCounted
        f len) :=
    readU32_spends.bind fun len => protectCounted_spends.bind fun _ => hf len
  rcases tag with _ | tag
  · exact spends_throw (by decide)
  cases tag with
  | kArray =>
    refine Spends.ite (spends_throw (by decide)) ?_
    refine h.bind fun dims => h.bind fun dimnames => h.bind fun value => ?_
    exact (rfSetAttrib_spends coerce _ _ _).bind fun value => rfSetAttrib_spends coerce _ _ _
  | kNil => exact Spends.pure _
  | kLogical | kInteger =>
    exact vector fun len => (readI32_spends.repeatM len).bind fun data => Spends.pure _
  | kReal => exact vector fun len => (readBytes_spends _).bind fun data => Spends.pure _
  | kString =>
    rw [readTagged]
    exact vector fun len => (readString_spends.repeatM len).bind fun data => Spends.pure _
  | kList =>
    rw [readTagged]
    refine vector fun len => Spends.bind ?_ fun attrib =>
      (h.repeatM len).bind fun xs => Spends.pure _
    exact Spends.ite (readNames_spends coerce len) (Spends.pure [])

/-- With fuel for every four unread bytes and one more, the recursion ends before the fuel
does: every call takes a tag first. -/
theorem readSEXPWithin_spends (coerce : SEXP.Coercion) (formatVersion fuel : ℕ) :
    ∀ n < 4 * fuel, Spends n (readSEXPWithin coerce formatVersion fuel) := by
  induction fuel with
  | zero =>
    intro n hn
    contradiction
  | succ fuel ih =>
    intro n hn st hst
    rw [readSEXPWithin, meets_bind, meets_modify, readU32, bind_assoc, meets_bind]
    refine (readBytes_meets 4 _).mono (fun bs t h => ?_) fun e t h => ?_
    · obtain ⟨hfour, -, rfl⟩ := h
      simp only at hfour
      have hnext := ih (n - 4) (by omega)
      rw [pure_bind]
      refine (readTagged_spends hnext (ValueType.ofU32 (ofLE bs)) _
        (by simp only [List.length_drop]; omega)).mono (fun w u hu => ?_) fun e u hu => ?_
      · simp only [ReadState.potential, List.length_drop] at hu ⊢
        omega
      · refine ⟨hu.1, hu.2.trans ?_⟩
        simp only [ReadState.potential, List.length_drop]
        omega
    · obtain ⟨-, rfl, rfl⟩ := h
      refine ⟨by decide, ?_⟩
      simp only [ReadState.potential]
      omega

end

/-- On any stream the reader comes to an end of its own, within one call for each four bytes
and one more. -/
theorem readSEXP_spends (coerce : SEXP.Coercion) (formatVersion n : ℕ) :
    Spends n (readSEXP coerce formatVersion) := by
  intro st _
  rw [readSEXP, meets_bind, meets_get]
  exact readSEXPWithin_spends coerce formatVersion _ _ (by omega) st le_rfl

theorem unserializeSEXP_spends (coerce : SEXP.Coercion) (n : ℕ) :
    Spends n (unserializeSEXP coerce) := by
  refine readU32_spends.bind fun magic => Spends.ite (spends_throw (by decide)) ?_
  refine readU32_spends.bind fun version => Spends.ite (spends_throw (by decide)) ?_
  refine (readSEXP_spends coerce version n).bind fun result => Spends.bind ?_ fun st =>
    (UNPROTECT_spends st.protectCount).bind fun _ => Spends.pure result
  exact fun st _ => ⟨le_rfl, le_rfl⟩

/-- The same state, but for `t` more bytes at the end of its input. -/
def Longer (t : Bytes) (st st' : ReadState) : Prop := st = { st' with input := st'.input ++ t }

/-- How a reader can fail on the shorter input only. -/
def Starved (t : Bytes) (e : SerError) : Prop := e = .outOfFuel ∨ e = .readFailed ∧ t ≠ []

section
variable {α : Type} {t : Bytes}

theorem readBytes_follows (size : ℕ) :
    Follows (Longer t) (Starved t) (readBytes size) (readBytes size) := by
  rintro _ st' rfl bs u h
  have hlong := readBytes_meets size { st' with input := st'.input ++ t }
  rw [Meets, h] at hlong
  obtain ⟨hsize, rfl, rfl⟩ := hlong
  rw [List.length_append] at hsize
  refine (readBytes_meets size st').mono (fun bs u hread => ?_) fun e u hread => ?_
  · obtain ⟨hshort, rfl, rfl⟩ := hread
    refine ⟨(List.take_append_of_le_length hshort).symm, ?_⟩
    rw [Longer, ← List.drop_append_of_le_length hshort]
  · obtain ⟨hshort, rfl, -⟩ := hread
    refine Or.inr ⟨rfl, ?_⟩
    rintro rfl
    simp only [List.length_nil] at hsize
    omega

theorem readU32_follows : Follows (Longer t) (Starved t) readU32 readU32 :=
  (readBytes_follows 4).bind fun bs => Follows.pure (ofLE bs)

theorem readI32_follows : Follows (Longer t) (Starved t) readI32 readI32 :=
  (readBytes_follows 4).bind fun bs => Follows.pure (BitVec.ofNat 32 (ofLE bs))

theorem mkCharLen_follows (buffer : Bytes) :
    Follows (Longer t) (Starved t) (mkCharLen buffer) (mkCharLen buffer) := by
  unfold mkCharLen
  split
  · exact Follows.pure _
  · exact follows_throw _ _

theorem readString_follows : Follows (Longer t) (Starved t) readString readString := by
  refine readI32_follows.bind fun len => ?_
  refine Follows.ite (fun _ => Follows.pure none) fun _ => ?_
  refine Follows.ite (fun _ => follows_throw _ _) fun _ => ?_
  refine Follows.ite (c := 0 < len.toInt) (fun _ => ?_) fun _ => ?_
  · exact (readBytes_follows _).bind mkCharLen_follows
  · exact (Follows.pure []).bind mkCharLen_follows

theorem protectCounted_follows :
    Follows (Longer t) (Starved t) protectCounted protectCounted := by
  refine Follows.bind (Follows.modify ?_) fun _ => Follows.modify ?_
  all_goals
    rintro _ st' rfl
    rfl

theorem UNPROTECT_follows (k : ℕ) :
    Follows (Longer t) (Starved t) (UNPROTECT k) (UNPROTECT k) := by
  refine Follows.modify ?_
  rintro _ st' rfl
  rfl

theorem rfSetAttrib_follows (coerce : SEXP.Coercion) (v : SEXP) (s : Symbol) (x : SEXP) :
    Follows (Longer t) (Starved t) (rfSetAttrib coerce v s x) (rfSetAttrib coerce v s x) := by
  unfold rfSetAttrib
  split
  · exact Follows.pure _
  · exact follows_throw _ _

theorem readNames_follows (coerce : SEXP.Coercion) (len : ℕ) :
    Follows (Longer t) (Starved t) (readNames coerce len) (readNames coerce len) := by
  refine readU32_follows.bind fun hasNames => ?_
  refine Follows.ite (fun _ => follows_throw _ _) fun _ => ?_
  refine Follows.ite (fun _ => ?_) fun _ => Follows.pure []
  refine protectCounted_follows.bind fun _ => (readString_follows.repeatM len).bind fun nms => ?_
  refine (rfSetAttrib_follows coerce _ _ _).bind fun list => ?_
  refine (UNPROTECT_follows 1).bind fun _ => Follows.bind ?_ fun _ => Follows.pure list.attrib
  refine Follows.modify ?_
  rintro _ st' rfl
  rfl

/-- A version that adds arrays to another, and has names sections where that one has. -/
structure Extends (version version' : ℕ) : Prop where
  arrays : version ≤ version'
  names : 2 ≤ version ↔ 2 ≤ version'

theorem Extends.refl (version : ℕ) : Extends version version := ⟨le_rfl, Iff.rfl⟩

variable {coerce : SEXP.Coercion} {version version' : ℕ}

theorem readTagged_follows (hv : Extends version version') {next next' : ReadM SEXP}
    (h : Follows (Longer t) (Starved t) next next') (tag : Option ValueType) :
    Follows (Longer t) (Starved t) (readTagged coerce version next tag)
      (readTagged coerce version' next' tag) := by
  have vector {f g : ℕ → ReadM SEXP}
      (hf : ∀ len, Follows (Longer t) (Starved t) (f len) (g len)) :
      Follows (Longer t) (Starved t)
        (readU32 >>= fun len => protectCounted >>= fun _ => f len)
        (readU32 >>= fun len => protectCounted >>= fun _ => g len) :=
    readU32_follows.bind fun len => protectCounted_follows.bind fun _ => hf len
  rcases tag with _ | tag
  · exact follows_throw _ _
  cases tag with
  | kArray =>
    rw [readTagged, readTagged]
    by_cases hlt : version < 3
    · rw [if_pos hlt]
      exact follows_throw _ _
    · have harrays := hv.arrays
      rw [if_neg hlt, if_neg (by omega)]
      refine h.bind fun dims => h.bind fun dimnames => h.bind fun value => ?_
      exact (rfSetAttrib_follows coerce _ _ _).bind fun value =>
        rfSetAttrib_follows coerce _ _ _
  | kNil => exact Follows.pure _
  | kLogical | kInteger =>
    exact vector fun len => (readI32_follows.repeatM len).bind fun data => Follows.pure _
  | kReal => exact vector fun len => (readBytes_follows _).bind fun data => Follows.pure _
  | kString =>
    rw [readTagged, readTagged]
    exact vector fun len => (readString_follows.repeatM len).bind fun data => Follows.pure _
  | kList =>
    rw [readTagged, readTagged]
    refine vector fun len => Follows.bind ?_ fun attrib =>
      (h.repeatM len).bind fun xs => Follows.pure _
    by_cases hnames : 2 ≤ version
    · rw [if_pos hnames, if_pos (hv.names.mp hnames)]
      exact readNames_follows coerce len
    · rw [if_neg hnames, if_neg (mt hv.names.mpr hnames)]
      exact Follows.pure []

/-- Whatever the bounds on the two recursions. -/
theorem readSEXPWithin_follows (hv : Extends version version') (fuel fuel' : ℕ) :
    Follows (Longer t) (Starved t) (readSEXPWithin coerce version fuel)
      (readSEXPWithin coerce version' fuel') := by
  induction fuel generalizing fuel' with
  | zero => exact follows_throw _ _
  | succ fuel ih =>
    obtain _ | fuel' := fuel'
    · exact follows_of_throw (show Starved t .outOfFuel from Or.inl rfl) _
    · rw [readSEXPWithin, readSEXPWithin]
      refine Follows.bind (Follows.modify ?_) fun _ => readU32_follows.bind fun tag =>
        readTagged_follows hv (ih fuel') _
      rintro _ st' rfl
      rfl

theorem readSEXP_follows (hv : Extends version version') :
    Follows (Longer t) (Starved t) (readSEXP coerce version) (readSEXP coerce version') := by
  intro st st' hst
  rw [readSEXP, readSEXP]
  intro w u h
  rw [exec_bind_ok (exec_get st)] at h
  rw [meets_bind, meets_get]
  exact readSEXPWithin_follows hv _ _ st st' hst w u h

end

/-- What one version accepts, an extension of it accepts, with the same value and the same
input left. -/
theorem readSEXP_extends {coerce : SEXP.Coercion} {version version' : ℕ}
    (hv : Extends version version') {st u : ReadState} {w : SEXP}
    (h : exec (readSEXP coerce version) st = (.ok w, u)) :
    exec (readSEXP coerce version') st = (.ok w, u) := by
  have hlonger (s : ReadState) : Longer [] s s := by simp [Longer]
  have hfollows := readSEXP_follows hv st st (hlonger st) w u h
  have hspends := readSEXP_spends coerce version' _ st le_rfl
  rcases (hfollows.and hspends).run with ⟨w', u', hrun, ⟨rfl, hu⟩, -⟩ | ⟨e, u', -, hshort, hfuel, -⟩
  · rw [Longer, List.append_nil] at hu
    rw [hrun, hu]
  · rcases hshort with hout | ⟨-, hnil⟩
    · exact absurd hout hfuel
    · contradiction

end RCompss.Serialization
