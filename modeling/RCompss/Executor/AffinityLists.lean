import RCompss.Executor.Binding
import Mathlib.Combinatorics.Colex

/-! What the affinity fields of a task say, read as comma-separated lists of decimal ids, and
which of them are bound as they say. -/
namespace RCompss.Executor
open RCompss.Library

/-- One digit or more. -/
def IsNumeral (piece : Text) : Prop := piece ≠ [] ∧ ∀ c ∈ piece, c.isDigit = true

/-- The value of a numeral. -/
def numeral (piece : Text) : ℕ := Nat.ofDigitChars 10 piece 0

/-- A comma-separated list of decimal ids, at least one. -/
def ListsIds (s : Text) (ids : List ℕ) : Prop :=
  (∀ piece ∈ s.splitOn ',', IsNumeral piece) ∧ ids = (s.splitOn ',').map numeral

instance (piece : Text) : Decidable (IsNumeral piece) :=
  decidable_of_iff (piece ≠ [] ∧ piece.all Char.isDigit = true) (by
    rw [List.all_eq_true, IsNumeral])

instance (s : Text) (ids : List ℕ) : Decidable (ListsIds s ids) :=
  inferInstanceAs (Decidable (_ ∧ _))

/-- `std::stoi` on a numeral fails only for what no `int` holds. -/
theorem stoi_numeral {piece : Text} (h : IsNumeral piece) :
    stoi piece = if numeral piece < 2 ^ 31 then some (numeral piece : ℤ) else none := by
  obtain ⟨hne, hdigits⟩ := h
  obtain ⟨c, cs, rfl⟩ := List.exists_cons_of_ne_nil hne
  have hc := hdigits c List.mem_cons_self
  have hminus : c ≠ '-' := by
    rintro rfl
    revert hc
    decide
  have hplus : c ≠ '+' := by
    rintro rfl
    revert hc
    decide
  have htake : (c :: cs).takeWhile Char.isDigit = c :: cs := List.takeWhile_eq_self_iff.mpr hdigits
  unfold stoi numeral
  rw [List.dropWhile_cons_of_neg (by simp [isSpace_of_isDigit hc])]
  simp only [List.head?_cons, Option.some_beq_some, beq_eq_false_iff_ne.mpr hminus,
    beq_eq_false_iff_ne.mpr hplus, Bool.or_false, Bool.false_eq_true, if_false, htake]
  by_cases hlt : Nat.ofDigitChars 10 (c :: cs) 0 < 2 ^ 31
  · rw [if_pos hlt, if_pos ⟨hne, by omega, by omega⟩]
  · rw [if_neg hlt, if_neg fun hall => hlt (by omega)]

namespace ListsIds
variable {s : Text} {ids : List ℕ}

/-- Where every piece is a numeral, reading line by line gives every piece. -/
theorem getlines (h : ListsIds s ids) : getlines ',' s = s.splitOn ',' := by
  unfold Executor.getlines
  dsimp only
  split
  next hlast => exact absurd rfl (h.1 [] (List.mem_of_getLast? hlast)).1
  next => rfl

theorem ne_nil (h : ListsIds s ids) : s ≠ [] := by
  rintro rfl
  exact (h.1 [] (by simp)).1 rfl

theorem ne_noAffinity (h : ListsIds s ids) : s ≠ noAffinity := by
  rintro rfl
  have hdash := (h.1 noAffinity (by decide)).2 '-' (by decide)
  revert hdash
  decide

theorem length (h : ListsIds s ids) : ids.length = (s.splitOn ',').length := by
  rw [h.2, List.length_map]

end ListsIds

/-- A comma separates two pieces. -/
theorem comma_mem_iff (s : Text) : ',' ∈ s ↔ 1 < (s.splitOn ',').length := by
  constructor
  · intro h
    obtain ⟨before, after, rfl⟩ := List.append_of_mem h
    rw [List.splitOn_append_cons_self, List.length_append]
    have hbefore := List.length_pos_of_ne_nil (List.splitOn_ne_nil ',' before)
    have hafter := List.length_pos_of_ne_nil (List.splitOn_ne_nil ',' after)
    omega
  · intro h
    by_contra hno
    rw [List.splitOn_eq_singleton hno] at h
    exact Nat.lt_irrefl 1 h

section
variable {pieces : List Text}

theorem mapM_stoi_eq_none (h : ∃ piece ∈ pieces, stoi piece = none) :
    pieces.mapM stoi = none := by
  induction pieces with
  | nil => simp at h
  | cons piece pieces ih =>
    rw [List.mapM_cons]
    rcases hread : stoi piece with _ | n
    · rfl
    · have hrest : ∃ piece ∈ pieces, stoi piece = none := by
        obtain ⟨bad, hbad, hnone⟩ := h
        rcases List.mem_cons.mp hbad with rfl | hbad
        · rw [hread] at hnone
          contradiction
        · exact ⟨bad, hbad, hnone⟩
      rw [ih hrest]
      rfl

theorem mapM_stoi_eq_some (h : ∀ piece ∈ pieces, stoi piece ≠ none) :
    pieces.mapM stoi = some (pieces.filterMap stoi) := by
  induction pieces with
  | nil => rfl
  | cons piece pieces ih =>
    obtain ⟨n, hn⟩ := Option.ne_none_iff_exists'.mp (h piece List.mem_cons_self)
    rw [List.mapM_cons, ih fun p hp => h p (List.mem_cons_of_mem _ hp), hn,
      List.filterMap_cons_some hn]
    rfl

/-- Numerals that `std::stoi` reads are read as what they say. -/
theorem filterMap_stoi_numerals (hnum : ∀ piece ∈ pieces, IsNumeral piece)
    (h : ∀ piece ∈ pieces, stoi piece ≠ none) :
    pieces.filterMap stoi = (pieces.map numeral).map Nat.cast := by
  induction pieces with
  | nil => rfl
  | cons piece pieces ih =>
    have hread := h piece List.mem_cons_self
    rw [stoi_numeral (hnum piece List.mem_cons_self)] at hread
    have hsmall : numeral piece < 2 ^ 31 := by
      by_contra hlarge
      exact hread (if_neg hlarge)
    have hpiece : stoi piece = some (numeral piece : ℤ) := by
      rw [stoi_numeral (hnum piece List.mem_cons_self), if_pos hsmall]
    rw [List.filterMap_cons_some hpiece, List.map_cons, List.map_cons,
      ih (fun p hp => hnum p (List.mem_cons_of_mem _ hp))
        fun p hp => h p (List.mem_cons_of_mem _ hp)]

end

theorem mem_cpuSet {cpuList : List ℤ} {id : ℕ} :
    id ∈ cpuSet cpuList ↔ (id : ℤ) ∈ cpuList ∧ id < 1024 := by
  simp only [cpuSet, List.mem_toFinset, List.mem_map, List.mem_filter, decide_eq_true_iff]
  constructor
  · intro h
    obtain ⟨n, ⟨hn, hlow, hhigh⟩, rfl⟩ := h
    rw [Int.toNat_of_nonneg hlow]
    exact ⟨hn, by omega⟩
  · intro h
    exact ⟨id, ⟨h.1, by omega, by omega⟩, Int.toNat_natCast id⟩

/-- The set of small ids is the set that is asked for. -/
theorem cpuSet_natCast {ids : List ℕ} (h : ∀ id ∈ ids, id < 1024) :
    cpuSet (ids.map Nat.cast) = ids.toFinset := by
  ext id
  rw [mem_cpuSet, List.mem_toFinset]
  constructor
  · intro hid
    simpa using hid.1
  · intro hid
    exact ⟨by simpa using hid, h id hid⟩

/-- When the binding of a CPU field succeeds, and with what. -/
theorem cpuBinding_eq_some {sched : Scheduler} {cpus : Text} {count : ℕ} {mask : Finset ℕ} :
    cpuBinding sched cpus = some (count, mask) ↔ cpus ≠ noAffinity ∧ cpus ≠ [] ∧
      ∃ cpuList, (getlines ',' cpus).mapM stoi = some cpuList ∧ cpuList ≠ [] ∧
        sched (cpuSet cpuList) = some mask ∧ cpuList.length = count := by
  unfold cpuBinding
  by_cases hasks : cpus = noAffinity ∨ cpus = []
  · simp only [hasks, if_true]
    constructor
    · intro h
      cases h
    · intro h
      exact (hasks.elim h.1 h.2.1).elim
  · rw [not_or] at hasks
    rcases hlist : (getlines ',' cpus).mapM stoi with _ | cpuList
    · simp [hasks]
    · by_cases hnil : cpuList = []
      · simp [hasks, hnil]
      · rcases hset : sched (cpuSet cpuList) with _ | found
        · simp [hasks, hnil, hset]
        · simp [hasks, hnil, hset, and_comm]

/-- For every scheduler that refuses to leave a process without a CPU: a binding that succeeds
hands it the set of the ids that the field lists and tells how many these are, and one that
fails leaves the affinity as it was. -/
def BindsAsListed {ρ : Type} (cpus : Text) (p : Process ρ) : Prop :=
  ∀ sched : Scheduler, sched ∅ = none → Meets (bindCpus sched cpus) p
    (fun bound t => if bound = true then
      ∃ ids, ListsIds cpus ids ∧ sched ids.toFinset = some t.affinity.mask ∧
        t.affinity.COMPSS_NUM_CPUS = some (decimal ids.toFinset.card)
      else t.affinity = p.affinity)
    fun _ _ => False

/-- Nothing is asked for: no entry, one that is not read, or no CPU that there can be. -/
def AsksForNone (cpus : Text) : Prop :=
  cpus = [] ∨ (∃ piece ∈ getlines ',' cpus, stoi piece = none) ∨
    ∀ piece ∈ getlines ',' cpus, ∀ id : ℤ, stoi piece = some id → ¬ (0 ≤ id ∧ id < 1024)

/-- A list of ids of CPUs that there can be, each once. -/
def DistinctCpus (cpus : Text) : Prop :=
  ∃ ids, ListsIds cpus ids ∧ ids.Nodup ∧ ∀ id ∈ ids, id < 1024

section
variable {ρ : Type} {cpus : Text} {p : Process ρ}

theorem bindsAsListed_iff_binding : BindsAsListed cpus p ↔ ∀ sched : Scheduler, sched ∅ = none →
    ∀ count mask, cpuBinding sched cpus = some (count, mask) →
      ∃ ids, ListsIds cpus ids ∧ sched ids.toFinset = some mask ∧ count = ids.toFinset.card := by
  refine forall_congr' fun sched => imp_congr_right fun _ => ?_
  obtain ⟨events, hrun⟩ := exec_bindCpus sched cpus p
  rw [Meets, hrun]
  rcases hbinding : cpuBinding sched cpus with _ | ⟨count, mask⟩
  · simp [Affinity.withCpus_of_none hbinding]
  · have hset : p.affinity.withCpus sched cpus = { p.affinity with
        COMPSS_BINDED_CPUS := some cpus
        COMPSS_NUM_CPUS := some (decimal count)
        mask := mask } := by rw [Affinity.withCpus, hbinding]
    simp only [hset, Option.isSome_some, if_true, Option.some.injEq, Prod.mk.injEq, and_imp,
      decimal_injective.eq_iff]
    constructor
    · intro h
      rintro _ _ rfl rfl
      exact h
    · intro h
      exact h count mask rfl rfl

theorem cpuBinding_of_asksForNone (h : AsksForNone cpus) {sched : Scheduler}
    (hempty : sched ∅ = none) : cpuBinding sched cpus = none := by
  by_contra hsome
  obtain ⟨⟨count, mask⟩, hbinding⟩ := Option.ne_none_iff_exists'.mp hsome
  obtain ⟨-, hne, cpuList, hlist, -, hset, -⟩ := cpuBinding_eq_some.mp hbinding
  rcases h with hnil | hunread | houtside
  · exact hne hnil
  · rw [mapM_stoi_eq_none hunread] at hlist
    contradiction
  · have hread : ∀ piece ∈ getlines ',' cpus, stoi piece ≠ none := by
      intro piece hpiece hnone
      rw [mapM_stoi_eq_none ⟨piece, hpiece, hnone⟩] at hlist
      contradiction
    rw [mapM_stoi_eq_some hread] at hlist
    cases hlist
    have hnone : cpuSet ((getlines ',' cpus).filterMap stoi) = ∅ := by
      refine Finset.eq_empty_of_forall_notMem fun id hid => ?_
      rw [mem_cpuSet, List.mem_filterMap] at hid
      obtain ⟨⟨piece, hpiece, hstoi⟩, hlt⟩ := hid
      exact houtside piece hpiece id hstoi ⟨by omega, by omega⟩
    rw [hnone, hempty] at hset
    contradiction

/-- A list of distinct ids is bound as it says. -/
theorem bindsAsListed_of_distinct (h : DistinctCpus cpus) : BindsAsListed cpus p := by
  obtain ⟨ids, hlists, hnodup, hsmall⟩ := h
  rw [bindsAsListed_iff_binding]
  intro sched _ count mask hbinding
  obtain ⟨-, -, cpuList, hlist, -, hset, hcount⟩ := cpuBinding_eq_some.mp hbinding
  rw [hlists.getlines] at hlist
  have hread : ∀ piece ∈ cpus.splitOn ',', stoi piece ≠ none := by
    intro piece hpiece hnone
    rw [mapM_stoi_eq_none ⟨piece, hpiece, hnone⟩] at hlist
    contradiction
  rw [mapM_stoi_eq_some hread, filterMap_stoi_numerals hlists.1 hread, ← hlists.2] at hlist
  cases hlist
  refine ⟨ids, hlists, ?_, ?_⟩
  · rw [← cpuSet_natCast hsmall, hset]
  · rw [List.toFinset_card_of_nodup hnodup, ← hcount, List.length_map]

/-- What is asked for, by a field that asks for a CPU there can be. -/
theorem cpuBinding_of_asks (h : ¬ AsksForNone cpus) {sched : Scheduler}
    (hgrants : ∀ set, set ≠ ∅ → sched set = some set) :
    cpuBinding sched cpus = some (((getlines ',' cpus).filterMap stoi).length,
      cpuSet ((getlines ',' cpus).filterMap stoi)) := by
  simp only [AsksForNone, not_or, not_exists, not_and] at h
  obtain ⟨hne, hread, hinside⟩ := h
  push Not at hinside
  obtain ⟨piece, hpiece, id, hstoi, hlow, hhigh⟩ := hinside
  have hid : id.toNat ∈ cpuSet ((getlines ',' cpus).filterMap stoi) := by
    rw [mem_cpuSet, Int.toNat_of_nonneg hlow, List.mem_filterMap]
    exact ⟨⟨piece, hpiece, hstoi⟩, by omega⟩
  have hdash : cpus ≠ noAffinity := by
    rintro rfl
    exact hread noAffinity (by decide) (by decide)
  apply cpuBinding_eq_some.mpr
  refine ⟨hdash, hne, _, mapM_stoi_eq_some hread, ?_, hgrants _ (Finset.ne_empty_of_mem hid), rfl⟩
  exact List.ne_nil_of_mem (List.mem_filterMap.mpr ⟨piece, hpiece, hstoi⟩)

/-- A CPU field is bound as it says exactly when it asks for nothing or lists distinct ids of
CPUs there can be, without anything else. -/
theorem binds_as_listed_iff (cpus : Text) (p : Process ρ) :
    BindsAsListed cpus p ↔ AsksForNone cpus ∨ DistinctCpus cpus := by
  constructor
  · intro h
    by_contra hno
    rw [not_or] at hno
    let grants : Scheduler := fun set => if set = ∅ then none else some set
    have hgrants : ∀ set, set ≠ ∅ → grants set = some set := fun set hset => if_neg hset
    have hbinding := cpuBinding_of_asks hno.1 hgrants
    obtain ⟨ids, hlists, hset, hcount⟩ :=
      bindsAsListed_iff_binding.mp h grants (if_pos rfl) _ _ hbinding
    have hread : ∀ piece ∈ cpus.splitOn ',', stoi piece ≠ none := by
      intro piece hpiece hnone
      apply hno.1
      exact .inr (.inl ⟨piece, by rwa [hlists.getlines], hnone⟩)
    rw [hlists.getlines, filterMap_stoi_numerals hlists.1 hread, ← hlists.2] at hset hcount
    have hsame : ids.toFinset = cpuSet (ids.map Nat.cast) := by
      simp only [grants] at hset
      split at hset
      next => contradiction
      next => exact Option.some.inj hset
    apply hno.2
    refine ⟨ids, hlists, ?_, fun id hid => ?_⟩
    · rw [List.length_map] at hcount
      exact Multiset.toFinset_card_eq_card_iff_nodup.mp hcount.symm
    · have hmem : id ∈ ids.toFinset := List.mem_toFinset.mpr hid
      rw [hsame, mem_cpuSet] at hmem
      exact hmem.2
  · intro h
    rcases h with hnone | hdistinct
    · rw [bindsAsListed_iff_binding]
      intro sched hempty count mask hbinding
      rw [cpuBinding_of_asksForNone hnone hempty] at hbinding
      contradiction
    · exact bindsAsListed_of_distinct hdistinct

end

/-- A process bound to nothing. -/
def unboundProcess : Process Unit := ⟨(), ⟨none, none, none, none, none, {0, 1, 2, 3}⟩, [], [], []⟩

/-- A range binds its first CPU. -/
theorem range_not_bound_as_listed : ¬ ∀ cpus, BindsAsListed cpus unboundProcess := by
  intro h
  have hbinding : cpuBinding (fun set => if set = ∅ then none else some set) "1-4".toList =
      some (1, {1}) := by decide
  obtain ⟨ids, hlists, -⟩ := bindsAsListed_iff_binding.mp (h "1-4".toList)
    (fun set => if set = ∅ then none else some set) (if_pos rfl) _ _ hbinding
  exact absurd (hlists.1 "1-4".toList (by decide)) (by decide)

/-- The GPUs of a list that the affinity event has a slot for. -/
def slotsOf (ids : List ℕ) : Finset ℕ := ids.toFinset.filter (· < 4)

/-- The slots that are set. -/
theorem assignedGpus_eq_sum {gpus : Text} {p : ℕ → Prop} [DecidablePred p]
    (h : gpuMaskList gpus = (List.range 4).map fun i => if p i then 1 else 0) :
    assignedGpus gpus = ∑ g ∈ (Finset.range 4).filter p, 2 ^ g := by
  have hread : ∀ b0 b1 b2 b3 : Bool, Nat.ofDigitChars 2
      (([b0.toNat, b1.toNat, b2.toNat, b3.toNat].reverse).flatMap decimal) 0 =
      b0.toNat + b1.toNat * 2 + b2.toNat * 4 + b3.toNat * 8 := by decide
  have hslots : gpuMaskList gpus = [(decide (p 0)).toNat, (decide (p 1)).toNat,
      (decide (p 2)).toNat, (decide (p 3)).toNat] := by
    rw [h]
    simp [List.range_succ, Bool.toNat, Bool.cond_decide]
  rw [assignedGpus, hslots, hread, Finset.sum_filter]
  simp [Finset.sum_range_succ, Bool.toNat, Bool.cond_decide]

section
variable {gpus : Text} {ids : List ℕ}

/-- Several GPUs fill the slots from the lowest. -/
theorem assignedGpus_several (h : ListsIds gpus ids) (hlen : ids.length ≠ 1) :
    assignedGpus gpus = ∑ g ∈ (Finset.range 4).filter (· < ids.length), 2 ^ g := by
  have hcount := h.length
  have hpos := List.length_pos_of_ne_nil (List.splitOn_ne_nil ',' gpus)
  have hcomma : ',' ∈ gpus := (comma_mem_iff gpus).mpr (by omega)
  apply assignedGpus_eq_sum
  rw [gpuMaskList, if_pos hcomma, h.getlines, hcount]

/-- A single GPU fills its own slot. -/
theorem assignedGpus_single (h : ListsIds gpus ids) (hlen : ids.length = 1) :
    assignedGpus gpus = ∑ g ∈ slotsOf ids, 2 ^ g := by
  have hcount := h.length
  have hcomma : ',' ∉ gpus := fun hmem => by
    have hseveral := (comma_mem_iff gpus).mp hmem
    omega
  have hpieces : gpus.splitOn ',' = [gpus] := List.splitOn_eq_singleton hcomma
  have hids : ids = [numeral gpus] := by
    rw [h.2, hpieces]
    rfl
  have hnum : IsNumeral gpus := h.1 gpus (by rw [hpieces]; exact List.mem_singleton_self gpus)
  have hslots : slotsOf ids = (Finset.range 4).filter fun i => i = numeral gpus := by
    ext g
    simp only [slotsOf, hids, Finset.mem_filter, List.mem_toFinset, List.mem_singleton,
      Finset.mem_range, and_comm]
  rw [hslots]
  apply assignedGpus_eq_sum
  rw [gpuMaskList, if_neg hcomma, stoi_numeral hnum]
  by_cases hsmall : numeral gpus < 2 ^ 31
  · rw [if_pos hsmall]
    simp [← List.map_eq_flatMap]
  · rw [if_neg hsmall]
    have hfar (i : ℕ) (hi : i ∈ List.range 4) : (if i = numeral gpus then 1 else 0) = 0 := by
      apply if_neg
      have hi := List.mem_range.mp hi
      omega
    rw [List.map_congr_left hfar]
    rfl

end

/-- What a task's binding to GPUs emits. -/
theorem events_bindGpus {ρ : Type} {gpus : Text} (hasks : asksGpus gpus = true) (p : Process ρ) :
    (exec (bindGpus gpus) p).2.events =
      p.events ++ [(9000100, 2), (9000160, assignedGpus gpus), (9000100, 0)] := by
  have hasks : gpus ≠ noAffinity ∧ gpus ≠ [] := of_decide_eq_true hasks
  unfold bindGpus
  rw [if_neg (not_or.mpr hasks)]
  simp [exec_bind]

/-- The affinity event tells the GPUs of a list exactly when there is one GPU in it, or the
GPUs that have a slot are the first ones, as many as the list has entries. -/
theorem gpu_event_tells_iff {ρ : Type} {gpus : Text} {ids : List ℕ} (h : ListsIds gpus ids)
    (p : Process ρ) :
    (exec (bindGpus gpus) p).2.events = p.events ++
        [(9000100, 2), (9000160, ∑ g ∈ slotsOf ids, 2 ^ g), (9000100, 0)] ↔
      ids.length = 1 ∨ ∀ g < 4, (g ∈ ids ↔ g < ids.length) := by
  have hasks : asksGpus gpus = true := decide_eq_true ⟨h.ne_noAffinity, h.ne_nil⟩
  rw [events_bindGpus hasks]
  simp only [List.append_cancel_left_eq, List.cons.injEq, Prod.mk.injEq, and_true, true_and]
  by_cases hlen : ids.length = 1
  · exact iff_of_true (assignedGpus_single h hlen) (.inl hlen)
  · rw [assignedGpus_several h hlen, (Finset.geomSum_injective le_rfl).eq_iff, or_iff_right hlen,
      Finset.ext_iff]
    refine forall_congr' fun g => ?_
    simp only [slotsOf, Finset.mem_filter, Finset.mem_range, List.mem_toFinset]
    constructor
    · intro hsame hg
      simpa [hg] using hsame.symm
    · intro hsame
      by_cases hg : g < 4
      · simpa [hg] using (hsame hg).symm
      · simp [hg]

/-- The first two GPUs are told. -/
theorem first_gpus_told : (exec (bindGpus "1,0".toList) unboundProcess).2.events =
    unboundProcess.events ++
      [(9000100, 2), (9000160, ∑ g ∈ slotsOf [1, 0], 2 ^ g), (9000100, 0)] :=
  (gpu_event_tells_iff (by decide) unboundProcess).mpr (.inr (by decide))

/-- The last two GPUs are told as the first two. -/
theorem last_gpus_not_told : ¬ ∀ gpus ids, ListsIds gpus ids →
    (exec (bindGpus gpus) unboundProcess).2.events = unboundProcess.events ++
      [(9000100, 2), (9000160, ∑ g ∈ slotsOf ids, 2 ^ g), (9000100, 0)] := by
  intro h
  have hevents := h "2,3".toList [2, 3] (by decide)
  rw [events_bindGpus (by decide)] at hevents
  revert hevents
  decide

end RCompss.Executor
