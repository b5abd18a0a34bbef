import RCompss.Serialization.Reader

/-! What the reader does on an encoded payload, followed by anything. -/
namespace RCompss.Serialization
open RCompss.Library

/-- The state after some reading: what is unread, and what it cost. -/
def ReadState.after (st : ReadState) (rest : Bytes) (use : StackUse) (calls : ℕ) : ReadState :=
  ⟨rest, st.protectCount + use.net, st.stack.advance use, st.calls + calls⟩

/-- On `b` followed by anything the computation returns `a` and stops behind `b`. -/
def Reads {α : Type} (x : ReadM α) (b : Bytes) (use : StackUse) (calls : ℕ) (a : α) : Prop :=
  ∀ st t, st.input = b ++ t → exec x st = (.ok a, st.after t use calls)

section
variable {α β : Type}

theorem Reads.pure (a : α) : Reads (Pure.pure a) [] 1 0 a := by
  intro st t h
  obtain ⟨_, _, _, _⟩ := st
  simp only [List.nil_append] at h
  simp [ReadState.after, h]

theorem Reads.bind {x : ReadM α} {f : α → ReadM β} {b b' : Bytes} {u u' : StackUse}
    {c c' : ℕ} {a : α} {a' : β} (hx : Reads x b u c a) (hf : Reads (f a) b' u' c' a') :
    Reads (x >>= f) (b ++ b') (u * u') (c + c') a' := by
  intro st t h
  rw [exec_bind_ok (hx st (b' ++ t) (by simpa using h)), hf _ t rfl]
  simp [ReadState.after, StackMeter.advance_mul, add_assoc]

/-- A first step that costs nothing but input. -/
theorem Reads.next {x : ReadM α} {f : α → ReadM β} {b b' : Bytes} {u : StackUse} {c : ℕ} {a : α}
    {a' : β} (hx : Reads x b 1 0 a) (hf : Reads (f a) b' u c a') :
    Reads (x >>= f) (b ++ b') u c a' := by
  simpa using hx.bind hf

/-- A last step that only computes costs nothing. -/
theorem Reads.map {x : ReadM α} {b : Bytes} {u : StackUse} {c : ℕ} {a : α}
    (hx : Reads x b u c a) (f : α → β) : Reads (x >>= fun a => Pure.pure (f a)) b u c (f a) := by
  simpa using hx.bind (f := fun a => Pure.pure (f a)) (Reads.pure (f a))

theorem Reads.repeatM {act : ReadM α} {f : β → α} {b : β → Bytes} {u : β → StackUse}
    {c : β → ℕ} (xs : List β) (h : ∀ x ∈ xs, Reads act (b x) (u x) (c x) (f x)) :
    Reads (Library.repeatM act xs.length) (xs.flatMap b) (xs.map u).prod (xs.map c).sum
      (xs.map f) := by
  induction xs with
  | nil => exact Reads.pure _
  | cons x xs ih =>
    have hx := h x (by simp)
    have hxs := ih fun y hy => h y (by simp [hy])
    exact hx.bind (f := fun a => Library.repeatM act xs.length >>= fun as => Pure.pure (a :: as))
      (hxs.map (f x :: ·))

/-- Items that cost nothing but input. -/
theorem Reads.repeatM_free {act : ReadM α} {f : β → α} {b : β → Bytes}
    (h : ∀ x, Reads act (b x) 1 0 (f x)) (xs : List β) :
    Reads (Library.repeatM act xs.length) (xs.flatMap b) 1 0 (xs.map f) := by
  simpa using Reads.repeatM xs fun x _ => h x

theorem readBytes_reads (b : Bytes) : Reads (readBytes b.length) b 1 0 b := by
  intro st t h
  have hlen : b.length ≤ st.input.length := by simp [h]
  simp only [readBytes, exec_bind, exec_get]
  rw [if_pos hlen]
  simp only [exec_bind, exec_set, exec_pure]
  simp [h, ReadState.after]

theorem readWord_reads {k n : ℕ} (h : n < 256 ^ k) :
    Reads (readBytes k >>= fun bs => Pure.pure (ofLE bs)) (toLE k n) 1 0 n := by
  have hb := (readBytes_reads (toLE k n)).map ofLE
  rwa [length_toLE, ofLE_toLE_of_lt h] at hb

theorem readU32_reads {n : ℕ} (h : n < 2 ^ 32) : Reads readU32 (u32 n) 1 0 n :=
  readWord_reads (by simpa using h)

theorem readTag_reads (t : ValueType) : Reads readU32 (u32 t.toU32) 1 0 t.toU32 :=
  readWord_reads t.toU32_lt

theorem readI32_reads (w : BitVec 32) : Reads readI32 (u32 w.toNat) 1 0 w := by
  have hb := (readBytes_reads (toLE 4 w.toNat)).map fun bs => BitVec.ofNat 32 (ofLE bs)
  have hw : ofLE (toLE 4 w.toNat) = w.toNat := ofLE_toLE_of_lt (by simpa using w.isLt)
  simpa [readI32, u32, hw] using hb

theorem mkCharLen_reads (s : RString) : Reads (mkCharLen s.bytes) [] 1 0 (some s) := by
  rw [mkCharLen, dif_pos ⟨s.noNul, s.short⟩]
  exact Reads.pure _

theorem readString_reads (s : CharSXP) : Reads readString (encodeString s) 1 0 s := by
  cases s with
  | none =>
    refine (readI32_reads (-1)).next (show Reads _ [] 1 0 _ from ?_)
    rw [if_pos rfl]
    exact Reads.pure none
  | some s =>
    have hne : BitVec.ofNat 32 s.bytes.length ≠ -1 := by
      intro h
      have hint := congrArg BitVec.toInt h
      rw [s.toInt_ofNat_length] at hint
      have hneg : (-1 : BitVec 32).toInt = -1 := by decide
      omega
    have hhead := readI32_reads (BitVec.ofNat 32 s.bytes.length)
    rw [s.toNat_ofNat_length] at hhead
    refine hhead.next ?_
    rw [if_neg hne, s.toInt_ofNat_length, if_neg (by omega), s.toNat_ofNat_length]
    by_cases h0 : 0 < s.bytes.length
    · simpa [h0] using (readBytes_reads s.bytes).next (mkCharLen_reads s)
    · have hb : s.bytes = [] := List.eq_nil_of_length_eq_zero (by omega)
      simpa [hb] using mkCharLen_reads s

theorem protectCounted_reads : Reads protectCounted [] .push 0 () := by
  intro st t h
  simp only [List.nil_append] at h
  simp [protectCounted, PROTECT, exec_bind, ReadState.after, h, StackUse.push,
    StackMeter.push_eq_advance]

/-- Protect while a part runs, and unprotect behind it. -/
theorem Reads.borrowing {x : ReadM α} {b : Bytes} {a : α} (hx : Reads x b 1 0 a) (f : α → β) :
    Reads (do
      protectCounted
      let a ← x
      UNPROTECT 1
      modify fun st => { st with protectCount := st.protectCount - 1 }
      return f a) b .borrow 0 (f a) := by
  intro st t h
  rw [exec_bind_ok (protectCounted_reads st (b ++ t) h), exec_bind_ok (hx _ t rfl)]
  have hpop : (st.stack.advance .push).pop 1 = st.stack.advance .borrow := by
    rw [← StackMeter.push_eq_advance, StackMeter.push_pop]
  simp only [UNPROTECT, exec_bind, exec_modify, exec_pure, ReadState.after,
    StackMeter.advance_one, hpop]
  simp [StackUse.push, StackUse.borrow]

theorem rfSetAttrib_reads {coerce : SEXP.Coercion} {v w x : SEXP} {s : Symbol}
    (h : v.setAttrib coerce s x = .ok w) : Reads (rfSetAttrib coerce v s x) [] 1 0 w := by
  rw [rfSetAttrib, h]
  exact Reads.pure w

/-- The names section of a list costs one borrowed entry when the list has names. -/
theorem readNames_reads {coerce : SEXP.Coercion} {n : ℕ} {names : Option (List CharSXP)}
    {as : List (Symbol × SEXP)} (hn : ∀ ns ∈ names, ns.length = n)
    (h : attachNames coerce n names = .ok as) :
    Reads (readNames coerce n) (encodeNames 2 names) (if names.isSome then .borrow else 1) 0
      as := by
  cases names with
  | none =>
    obtain rfl : [] = as := by simpa [attachNames] using h
    refine (readU32_reads (by decide)).next (show Reads _ [] 1 0 _ from ?_)
    rw [if_neg (by decide), if_neg (by decide)]
    exact Reads.pure _
  | some ns =>
    obtain rfl : ns.length = n := hn ns rfl
    simp only [attachNames] at h
    rcases hset : SEXP.setAttrib coerce (.vec (List.replicate ns.length .nil) []) R_NamesSymbol
      (.atom (.str ns) []) with e | list <;> rw [hset] at h
    · cases h
    obtain rfl : list.attrib = as := by simpa [bind, Except.bind, pure, Except.pure] using h
    have hstr := (Reads.repeatM_free readString_reads ns).next
      (f := fun nms => rfSetAttrib coerce (.vec (List.replicate ns.length .nil) [])
        R_NamesSymbol (.atom (.str nms) [])) (by simpa using rfSetAttrib_reads hset)
    rw [List.append_nil] at hstr
    refine (readU32_reads (by decide)).next ?_
    rw [if_neg (by decide), if_pos (by decide)]
    simpa only [bind_assoc, Option.isSome_some, if_true] using hstr.borrowing SEXP.attrib

/-- Version 1 has no names section, and a list readable there has no names. -/
theorem optionalNames_reads {coerce : SEXP.Coercion} {version n : ℕ}
    {names : Option (List CharSXP)} {as : List (Symbol × SEXP)}
    (hn : ∀ ns ∈ names, ns.length = n) (hv : names.isNone = true ∨ 2 ≤ version)
    (h : attachNames coerce n names = .ok as) :
    Reads (if 2 ≤ version then readNames coerce n else Pure.pure []) (encodeNames version names)
      (if names.isSome then .borrow else 1) 0 as := by
  by_cases h2 : 2 ≤ version
  · rw [if_pos h2]
    simpa [encodeNames, show ¬ version < 2 by omega] using readNames_reads hn h
  · obtain rfl : names = none := by simpa [h2] using hv
    obtain rfl : [] = as := by simpa [attachNames] using h
    simpa [h2, encodeNames, show version < 2 by omega] using
      Reads.pure ([] : List (Symbol × SEXP))

/-- A length header below `2^32`, then a protected vector. -/
theorem Reads.vector {f : ℕ → ReadM α} {n : ℕ} (hn : n < 2 ^ 32) {b : Bytes} {u : StackUse}
    {c : ℕ} {a : α} (h : Reads (f n) b u c a) :
    Reads (do
      let len ← readU32
      protectCounted
      f len) (u32 n ++ b) (.push * u) c a := by
  simpa using (readU32_reads hn).next (f := fun len => protectCounted >>= fun _ => f len)
    (protectCounted_reads.bind (f := fun _ => f n) h)

/-- A vector read item by item. -/
theorem Reads.items {act : ReadM β} {b : β → Bytes} (h : ∀ x, Reads act (b x) 1 0 x)
    {xs : List β} (hn : xs.length < 2 ^ 32) (g : List β → α) :
    Reads (do
      let len ← readU32
      protectCounted
      let data ← Library.repeatM act len
      return g data) (u32 xs.length ++ xs.flatMap b) .push 0 (g xs) := by
  have hdata := (Reads.repeatM_free (f := id) h xs).map g
  rw [List.map_id] at hdata
  have hvec := Reads.vector (f := fun n => Library.repeatM act n >>= fun d => Pure.pure (g d)) hn
    hdata
  rwa [mul_one] at hvec

end

section
variable {coerce : SEXP.Coercion} {version : ℕ}

/-- One call of the reader: count it, read the tag, and branch on it. -/
theorem readSEXPWithin_call (t : ValueType) {fuel c : ℕ} {b : Bytes} {u : StackUse} {w : SEXP}
    (h : Reads (readTagged coerce version (readSEXPWithin coerce version fuel) (some t)) b u c w) :
    Reads (readSEXPWithin coerce version (fuel + 1)) (u32 t.toU32 ++ b) u (c + 1) w := by
  have hcount : Reads (modify fun st => { st with calls := st.calls + 1 } : ReadM PUnit) [] 1 1
      ⟨⟩ := by
    intro st t h
    simp only [List.nil_append] at h
    simp [ReadState.after, h]
  rw [← ValueType.ofU32_toU32 t] at h
  have hcall := hcount.bind (f := fun _ => readU32 >>= fun tag => readTagged coerce version
    (readSEXPWithin coerce version fuel) (ValueType.ofU32 tag)) ((readTag_reads t).next h)
  rwa [List.nil_append, one_mul, add_comm] at hcall

theorem readTagged_reals (next : ReadM SEXP) {d : List (BitVec 64)} (h : d.length < 2 ^ 32) :
    Reads (readTagged coerce version next (some .kReal))
      (u32 d.length ++ d.flatMap fun w => toLE 8 w.toNat) .push 0 (.atom (.real d) []) := by
  let words := d.map BitVec.toNat
  have hbytes : (d.flatMap fun w => toLE 8 w.toNat) = words.flatMap (toLE 8) := by
    rw [List.flatMap_map]
  have hlen : words.length = d.length := List.length_map ..
  have hwords : (ofWords 8 d.length (words.flatMap (toLE 8))).map (BitVec.ofNat 64) = d := by
    rw [← hlen, ofWords_flatMap words fun w hw => by
      obtain ⟨x, -, rfl⟩ := List.mem_map.mp hw
      simpa using x.isLt]
    rw [List.map_map]
    exact List.map_id'' (fun x => by simp) d
  have hdata := (readBytes_reads (words.flatMap (toLE 8))).map fun data =>
    SEXP.atom (.real ((ofWords 8 d.length data).map (BitVec.ofNat 64))) []
  rw [hwords, length_flatMap_toLE, hlen] at hdata
  have hvec := Reads.vector (f := fun len => readBytes (len * 8) >>= fun data => Pure.pure
    (SEXP.atom (.real ((ofWords 8 len data).map (BitVec.ofNat 64))) [])) h hdata
  rwa [mul_one, ← hbytes] at hvec

theorem readAtomic_reads {fuel : ℕ} {d : Atomic} (h : d.length < 2 ^ 32) :
    Reads (readSEXPWithin coerce version (fuel + 1)) (encodeAtomic d) .push 1 (.atom d []) := by
  cases d <;> rw [encodeAtomic, List.append_assoc] <;> refine readSEXPWithin_call _ ?_
  case lgl d => exact Reads.items readI32_reads h fun d => SEXP.atom (.lgl d) []
  case int d => exact Reads.items readI32_reads h fun d => SEXP.atom (.int d) []
  case real d => exact readTagged_reals _ h
  case str d =>
    rw [readTagged]
    exact Reads.items readString_reads h fun d => SEXP.atom (.str d) []

theorem toSEXP_list_ok {names : Option (List CharSXP)} {xs : List Payload} {w : SEXP}
    (h : (Payload.list names xs).toSEXP coerce = .ok w) :
    ∃ as ws, attachNames coerce xs.length names = .ok as ∧
      Payload.toSEXPList coerce xs = .ok ws ∧ w = .vec ws as := by
  rw [Payload.toSEXP] at h
  rcases ha : attachNames coerce xs.length names with e | as <;> rw [ha] at h
  · cases h
  rcases hw : Payload.toSEXPList coerce xs with e | ws <;> rw [hw] at h
  · cases h
  · exact ⟨as, ws, rfl, rfl, (Except.ok.inj h).symm⟩

theorem toSEXP_array_ok {dims dimnames value : Payload} {w : SEXP}
    (h : (Payload.array dims dimnames value).toSEXP coerce = .ok w) :
    ∃ d dn v v', dims.toSEXP coerce = .ok d ∧ dimnames.toSEXP coerce = .ok dn ∧
      value.toSEXP coerce = .ok v ∧ v.setAttrib coerce R_DimSymbol d = .ok v' ∧
      v'.setAttrib coerce R_DimNamesSymbol dn = .ok w := by
  rw [Payload.toSEXP] at h
  rcases hd : dims.toSEXP coerce with e | d <;> rw [hd] at h
  · cases h
  rcases hn : dimnames.toSEXP coerce with e | dn <;> rw [hn] at h
  · cases h
  rcases hv : value.toSEXP coerce with e | v <;> rw [hv] at h
  · cases h
  rcases hs : v.setAttrib coerce R_DimSymbol d with e | v' <;>
    simp only [bind, Except.bind, hs] at h
  · cases h
  · exact ⟨d, dn, v, v', rfl, rfl, rfl, hs, h⟩

theorem toSEXPList_cons_ok {x : Payload} {xs : List Payload} {ws : List SEXP}
    (h : Payload.toSEXPList coerce (x :: xs) = .ok ws) :
    ∃ w ws', x.toSEXP coerce = .ok w ∧ Payload.toSEXPList coerce xs = .ok ws' ∧
      ws = w :: ws' := by
  rw [Payload.toSEXPList] at h
  rcases hx : x.toSEXP coerce with e | w <;> rw [hx] at h
  · cases h
  rcases hxs : Payload.toSEXPList coerce xs with e | ws' <;> rw [hxs] at h
  · cases h
  · exact ⟨w, ws', rfl, rfl, (Except.ok.inj h).symm⟩

mutual

/-- Within its depth the reader takes an encoding off the input, whatever follows, and
returns the value that R builds from it. -/
theorem readSEXPWithin_reads (p : Payload) {fuel : ℕ} {w : SEXP} (hfits : p.fits = true)
    (hver : p.readableAt version = true) (hfuel : p.depth ≤ fuel)
    (hw : p.toSEXP coerce = .ok w) :
    Reads (readSEXPWithin coerce version fuel) (p.encode version) p.stackUse p.tags w := by
  obtain _ | fuel := fuel
  · cases p <;> simp [Payload.depth] at hfuel
  cases p with
  | nil =>
    obtain rfl : .nil = w := Except.ok.inj hw
    exact readSEXPWithin_call .kNil (b := []) (Reads.pure _)
  | atom d =>
    obtain rfl : .atom d [] = w := Except.ok.inj hw
    exact readAtomic_reads (by simpa [Payload.fits] using hfits)
  | list names xs =>
    obtain ⟨as, ws, has, hws, rfl⟩ := toSEXP_list_ok hw
    simp only [Payload.fits, Bool.and_eq_true, decide_eq_true_eq] at hfits
    simp only [Payload.readableAt, Bool.and_eq_true, Bool.or_eq_true, decide_eq_true_eq] at hver
    have hxs := readElements_reads xs hfits.2 hver.2
      (by simpa [Payload.depth] using hfuel : Payload.depthList xs ≤ fuel) hws
    have hlen : ∀ ns ∈ names, ns.length = xs.length := fun ns hns => by
      simpa [Option.mem_def.mp hns] using hfits.1.2
    have hnames := optionalNames_reads hlen hver.1 has
    rw [Payload.encode, List.append_assoc, List.append_assoc, Payload.stackUse, mul_assoc]
    refine readSEXPWithin_call .kList ?_
    rw [readTagged]
    refine Reads.vector hfits.1.1 ?_
    have hbody := hnames.bind (f := fun as => repeatM (readSEXPWithin coerce version fuel)
      xs.length >>= fun ws => Pure.pure (SEXP.vec ws as)) (hxs.map fun ws => SEXP.vec ws as)
    rwa [zero_add] at hbody
  | array dims dimnames value =>
    obtain ⟨d, dn, v, v', hd, hn, hv, hdim, hdn⟩ := toSEXP_array_ok hw
    simp only [Payload.fits, Bool.and_eq_true] at hfits
    simp only [Payload.readableAt, Bool.and_eq_true, decide_eq_true_eq] at hver
    simp only [Payload.depth, Nat.add_le_add_iff_right, max_le_iff] at hfuel
    have hd := readSEXPWithin_reads dims hfits.1.1 hver.1.1.2 hfuel.1 hd
    have hn := readSEXPWithin_reads dimnames hfits.1.2 hver.1.2 hfuel.2.1 hn
    have hv := readSEXPWithin_reads value hfits.2 hver.2 hfuel.2.2 hv
    have hset : Reads (rfSetAttrib coerce v R_DimSymbol d >>= fun v' =>
        rfSetAttrib coerce v' R_DimNamesSymbol dn) [] 1 0 w :=
      (rfSetAttrib_reads hdim).next (rfSetAttrib_reads hdn)
    rw [Payload.encode, List.append_assoc, List.append_assoc, Payload.stackUse, mul_assoc]
    refine readSEXPWithin_call .kArray ?_
    rw [readTagged, if_neg (by omega), add_assoc]
    have hbody := hv.bind (f := fun v => rfSetAttrib coerce v R_DimSymbol d >>= fun v' =>
      rfSetAttrib coerce v' R_DimNamesSymbol dn) hset
    rw [List.append_nil, mul_one, add_zero] at hbody
    exact hd.bind (hn.bind hbody)
termination_by sizeOf p

theorem readElements_reads (xs : List Payload) {fuel : ℕ} {ws : List SEXP}
    (hfits : Payload.fitsList xs = true) (hver : Payload.readableAtList version xs = true)
    (hfuel : Payload.depthList xs ≤ fuel) (hw : Payload.toSEXPList coerce xs = .ok ws) :
    Reads (repeatM (readSEXPWithin coerce version fuel) xs.length)
      (Payload.encodeList version xs) (Payload.stackUseList xs) (Payload.tagsList xs) ws := by
  cases xs with
  | nil =>
    obtain rfl : [] = ws := Except.ok.inj hw
    exact Reads.pure _
  | cons x xs =>
    obtain ⟨w, ws', hx, hxs, rfl⟩ := toSEXPList_cons_ok hw
    simp only [Payload.fitsList, Bool.and_eq_true] at hfits
    simp only [Payload.readableAtList, Bool.and_eq_true] at hver
    simp only [Payload.depthList, max_le_iff] at hfuel
    have hx := readSEXPWithin_reads x hfits.1 hver.1 hfuel.1 hx
    have hxs := readElements_reads xs hfits.2 hver.2 hfuel.2 hxs
    exact hx.bind (hxs.map (w :: ·))
termination_by sizeOf xs

end

end

end RCompss.Serialization
