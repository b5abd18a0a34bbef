import Mathlib.Data.List.Perm.Basic
import Mathlib.Data.List.Forall2

/-! Reducing a queue: while it is too long, so many of its front are merged, and the result is
put at its end. -/
namespace RCompss.Library

section
variable {α β : Type}

/-- One turn. -/
def mergeFront (merge : List α → α) (arity : ℕ) (xs : List α) : List α :=
  xs.drop arity ++ [merge (xs.take arity)]

/-- At most so many turns, until no more than `arity` are left. -/
def reduceWithin (merge : List α → α) (arity : ℕ) : ℕ → List α → List α
  | 0, xs => xs
  | turns + 1, xs =>
      if arity < xs.length then reduceWithin merge arity turns (mergeFront merge arity xs) else xs

/-- As many turns as it takes: of two and more that are merged one is left. -/
def reduceQueue (merge : List α → α) (arity : ℕ) (xs : List α) : List α :=
  reduceWithin merge arity xs.length xs

variable {merge : List α → α} {arity m n : ℕ} {xs : List α}

theorem length_mergeFront : (mergeFront merge arity xs).length = xs.length - arity + 1 := by
  simp [mergeFront]

theorem reduceWithin_of_short (h : xs.length ≤ arity) (n : ℕ) :
    reduceWithin merge arity n xs = xs := by
  cases n with
  | zero => rfl
  | succ n => simp [reduceWithin, Nat.not_lt.mpr h]

theorem reduceWithin_add :
    reduceWithin merge arity (m + n) xs =
      reduceWithin merge arity n (reduceWithin merge arity m xs) := by
  induction m generalizing xs with
  | zero => simp [reduceWithin]
  | succ m ih =>
    rw [Nat.succ_add_eq_add_succ, Nat.add_succ]
    by_cases h : arity < xs.length
    · simp [reduceWithin, h, ih]
    · simp [reduceWithin, h, reduceWithin_of_short (Nat.not_lt.mp h)]

/-- With two and more merged at a time, the queue gets short. -/
theorem length_reduceWithin (harity : 2 ≤ arity) (h : xs.length ≤ n) :
    (reduceWithin merge arity n xs).length ≤ arity := by
  induction n generalizing xs with
  | zero => simp [reduceWithin, List.eq_nil_of_length_eq_zero (Nat.le_zero.mp h)]
  | succ n ih =>
    by_cases hlong : arity < xs.length
    · have hlength := @length_mergeFront _ merge arity xs
      simp only [reduceWithin, hlong, if_true]
      apply ih
      omega
    · simp only [reduceWithin, hlong, if_false]
      omega

/-- However many turns it took, a short queue is the one there is. -/
theorem reduceWithin_eq_reduceQueue (harity : 2 ≤ arity)
    (h : (reduceWithin merge arity n xs).length ≤ arity) :
    reduceWithin merge arity n xs = reduceQueue merge arity xs := by
  have hqueue : (reduceQueue merge arity xs).length ≤ arity :=
    length_reduceWithin harity (Nat.le_refl _)
  rcases Nat.le_total n xs.length with hle | hle
  · obtain ⟨k, hk⟩ := Nat.exists_eq_add_of_le hle
    rw [reduceQueue, hk, reduceWithin_add, reduceWithin_of_short h]
  · obtain ⟨k, rfl⟩ := Nat.exists_eq_add_of_le hle
    rw [reduceWithin_add]
    exact reduceWithin_of_short hqueue k

variable {Sums : α → List β → Prop} {bs : List β}

/-- What is merged sums up what its parts do. -/
def MergesSums (merge : List α → α) (Sums : α → List β → Prop) : Prop :=
  ∀ as bss, as ≠ [] → List.Forall₂ Sums as bss → Sums (merge as) bss.flatten

/-- Each element of the queue sums up a part of `bs`, and they all of it, none of it twice. -/
def SumsUp (Sums : α → List β → Prop) (xs : List α) (bs : List β) : Prop :=
  ∃ bss, List.Forall₂ Sums xs bss ∧ bss.flatten.Perm bs

/-- A turn loses nothing and takes nothing twice. -/
theorem SumsUp.mergeFront (h : SumsUp Sums xs bs) (hmerge : MergesSums merge Sums)
    (harity : 0 < arity) (hxs : xs ≠ []) : SumsUp Sums (mergeFront merge arity xs) bs := by
  obtain ⟨bss, hsums, hperm⟩ := h
  have hfront : xs.take arity ≠ [] := by simp [hxs, Nat.ne_of_gt harity]
  refine ⟨bss.drop arity ++ [(bss.take arity).flatten], ?_, ?_⟩
  · exact List.rel_append (List.forall₂_drop arity hsums)
      (.cons (hmerge _ _ hfront (List.forall₂_take arity hsums)) .nil)
  · have hrotated : (bss.drop arity ++ [(bss.take arity).flatten]).flatten.Perm
        ((bss.take arity).flatten ++ (bss.drop arity).flatten) := by
      simpa using List.perm_append_comm
    rw [← List.flatten_append, List.take_append_drop] at hrotated
    exact hrotated.trans hperm

theorem SumsUp.reduceWithin (h : SumsUp Sums xs bs) (hmerge : MergesSums merge Sums)
    (harity : 0 < arity) (n : ℕ) : SumsUp Sums (reduceWithin merge arity n xs) bs := by
  induction n generalizing xs with
  | zero => exact h
  | succ n ih =>
    by_cases hlong : arity < xs.length
    · have hxs : xs ≠ [] := by
        rintro rfl
        simp at hlong
      simp only [Library.reduceWithin, hlong, if_true]
      exact ih (h.mergeFront hmerge harity hxs)
    · simp only [Library.reduceWithin, hlong, if_false]
      exact h

theorem reduceWithin_ne_nil (hxs : xs ≠ []) (n : ℕ) : reduceWithin merge arity n xs ≠ [] := by
  induction n generalizing xs with
  | zero => exact hxs
  | succ n ih =>
    simp only [reduceWithin]
    split
    · exact ih (by simp [mergeFront])
    · exact hxs

/-- What all of the reduced queue is merged to sums up everything, in some order. -/
theorem SumsUp.merge_reduceQueue (h : SumsUp Sums xs bs) (hmerge : MergesSums merge Sums)
    (harity : 0 < arity) (hxs : xs ≠ []) :
    ∃ bs', bs'.Perm bs ∧ Sums (merge (reduceQueue merge arity xs)) bs' := by
  obtain ⟨bss, hsums, hperm⟩ := h.reduceWithin hmerge harity xs.length
  exact ⟨_, hperm, hmerge _ _ (reduceWithin_ne_nil hxs _) hsums⟩

end

section
variable {α : Type}

/-- Merging values some of which may be missing. -/
def onValues (merge : List α → Option α) (vs : List (Option α)) : Option α :=
  (vs.mapM id).bind merge

theorem mapM_id_eq_some {vs : List (Option α)} {xs : List α} :
    vs.mapM id = some xs ↔ vs = xs.map some := by
  induction vs generalizing xs with
  | nil => cases xs <;> simp
  | cons v vs ih =>
    cases v with
    | none => cases xs <;> simp [List.mapM_cons]
    | some x =>
      cases hvs : vs.mapM id with
      | none =>
        have hnone : ∀ ys : List α, vs ≠ ys.map some := fun ys h => by
          rw [ih.mpr h] at hvs
          cases hvs
        cases xs <;> simp [List.mapM_cons, hvs, hnone]
      | some ys =>
        obtain rfl := ih.mp hvs
        cases xs <;> simp [List.mapM_cons, hvs, List.map_inj_right]

variable {merge merge' : List α → Option α} {K : α → Prop} {vs : List (Option α)}

/-- Values that are all missing or in `K`. -/
def AllIn (K : α → Prop) (vs : List (Option α)) : Prop := ∀ v ∈ vs, ∀ x ∈ v, K x

/-- What a merge gives from values in `K` is in `K`. -/
def KeptBy (merge : List α → Option α) (K : α → Prop) : Prop :=
  ∀ xs, (∀ x ∈ xs, K x) → ∀ y, merge xs = some y → K y

theorem AllIn.of_values {xs : List α} (h : ∀ x ∈ xs, K x) : AllIn K (xs.map some) := by
  intro v hv x hx
  obtain ⟨y, hy, rfl⟩ := List.mem_map.mp hv
  have hsame : y = x := Option.some.inj hx
  exact hsame ▸ h y hy

/-- Where all values are there. -/
theorem map_eq_of_forall₂ {β : Type} {f : β → Option α} {bs : List β} {xs : List α}
    (h : List.Forall₂ (fun b x => f b = some x ∧ K x) bs xs) :
    bs.map f = xs.map some ∧ ∀ x ∈ xs, K x := by
  induction h with
  | nil => simp
  | cons hx _ ih => exact ⟨by simp [hx.1, ih.1], List.forall_mem_cons.mpr ⟨hx.2, ih.2⟩⟩

theorem AllIn.of_mapM (h : AllIn K vs) {xs : List α} (hvs : vs.mapM id = some xs) :
    ∀ x ∈ xs, K x := by
  intro x hx
  apply h (some x) _ x rfl
  rw [mapM_id_eq_some.mp hvs]
  exact List.mem_map_of_mem hx

theorem AllIn.onValues_eq (h : AllIn K vs)
    (hmerge : ∀ xs, (∀ x ∈ xs, K x) → merge xs = merge' xs) :
    onValues merge vs = onValues merge' vs := by
  unfold onValues
  cases hvs : vs.mapM id with
  | none => rfl
  | some xs => exact hmerge xs (h.of_mapM hvs)

theorem AllIn.mergeFront (h : AllIn K vs) (hkept : KeptBy merge K) (arity : ℕ) :
    AllIn K (mergeFront (onValues merge) arity vs) := by
  intro v hv x hx
  rcases List.mem_append.mp hv with hv | hv
  · exact h v (List.mem_of_mem_drop hv) x hx
  · have hmerged : onValues merge (vs.take arity) = some x := (List.mem_singleton.mp hv) ▸ hx
    unfold onValues at hmerged
    obtain ⟨xs, hxs, hy⟩ := Option.bind_eq_some_iff.mp hmerged
    have hfront : AllIn K (vs.take arity) := fun v hv => h v (List.mem_of_mem_take hv)
    exact hkept xs (hfront.of_mapM hxs) x hy

/-- Merges that agree on values in `K` leave the same queue, with values in `K`. -/
theorem AllIn.reduceWithin_eq (h : AllIn K vs) (hkept : KeptBy merge K)
    (hmerge : ∀ xs, (∀ x ∈ xs, K x) → merge xs = merge' xs) (arity n : ℕ) :
    reduceWithin (onValues merge) arity n vs = reduceWithin (onValues merge') arity n vs ∧
      AllIn K (reduceWithin (onValues merge) arity n vs) := by
  induction n generalizing vs with
  | zero => exact ⟨rfl, h⟩
  | succ n ih =>
    have hfront : AllIn K (vs.take arity) := fun v hv => h v (List.mem_of_mem_take hv)
    have hturn : Library.mergeFront (onValues merge) arity vs =
        Library.mergeFront (onValues merge') arity vs := by
      unfold Library.mergeFront
      rw [hfront.onValues_eq hmerge]
    simp only [reduceWithin]
    split
    · rw [← hturn]
      exact ih (h.mergeFront hkept arity)
    · exact ⟨rfl, h⟩

/-- A value put together from others by an operation on two, each of them once. -/
inductive SumOf (plus : α → α → Option α) : α → List α → Prop
  | one (x : α) : SumOf plus x [x]
  | plus {x y z : α} {xs ys : List α} (left : SumOf plus x xs) (right : SumOf plus y ys)
      (sum : plus x y = some z) : SumOf plus z (xs ++ ys)

/-- A value in `K` that is put together from these. -/
def AddsUp (plus : α → α → Option α) (K : α → Prop) (v : Option α) (xs : List α) : Prop :=
  ∃ x, v = some x ∧ K x ∧ SumOf plus x xs

/-- The operation takes any two values in `K`, and stays in it. -/
def ClosedOn (plus : α → α → Option α) (K : α → Prop) : Prop :=
  ∀ x y, K x → K y → ∃ z, plus x y = some z ∧ K z

variable {plus : α → α → Option α}

/-- Adding from the left. -/
theorem ClosedOn.foldlM (hplus : ClosedOn plus K) {x : α} {xs ys : List α} {bss : List (List α)}
    (hx : K x) (hsum : SumOf plus x xs)
    (hys : List.Forall₂ (AddsUp plus K) (ys.map some) bss) :
    AddsUp plus K (ys.foldlM plus x) (xs ++ bss.flatten) := by
  induction ys generalizing x xs bss with
  | nil =>
    cases hys
    exact ⟨x, rfl, hx, by simpa using hsum⟩
  | cons y ys ih =>
    cases hys with
    | cons htotal hrest =>
      obtain ⟨y', hsame, hy, hpart⟩ := htotal
      cases hsame
      obtain ⟨z, hz, hkept⟩ := hplus x y hx hy
      have hfold := ih hkept (.plus hsum hpart hz) hrest
      rw [List.foldlM_cons, hz, List.flatten_cons, ← List.append_assoc]
      exact hfold

/-- Only values that are there add up to something. -/
theorem eq_map_some_of_addsUp {bss : List (List α)} (h : List.Forall₂ (AddsUp plus K) vs bss) :
    ∃ xs : List α, vs = xs.map some := by
  induction h with
  | nil => exact ⟨[], rfl⟩
  | cons htotal _ ih =>
    obtain ⟨x, rfl, -⟩ := htotal
    obtain ⟨xs, rfl⟩ := ih
    exact ⟨x :: xs, rfl⟩

/-- A merge that adds from the left adds up what its parts do. -/
theorem ClosedOn.mergesSums (hplus : ClosedOn plus K)
    (hmerge : ∀ x xs, merge (x :: xs) = xs.foldlM plus x) :
    MergesSums (onValues merge) (AddsUp plus K) := by
  intro vs bss hne htotals
  obtain ⟨xs, rfl⟩ := eq_map_some_of_addsUp htotals
  cases xs with
  | nil => simp at hne
  | cons x xs =>
    cases htotals with
    | cons htotal hrest =>
      obtain ⟨y, hsame, hx, hpart⟩ := htotal
      cases hsame
      unfold onValues
      rw [mapM_id_eq_some.mpr rfl, Option.bind_some, hmerge, List.flatten_cons]
      exact hplus.foldlM hx hpart hrest

/-- And what it gives from values in `K` is in `K`. -/
theorem ClosedOn.keptBy (hplus : ClosedOn plus K) (hnil : merge [] = none)
    (hmerge : ∀ x xs, merge (x :: xs) = xs.foldlM plus x) : KeptBy merge K := by
  intro xs hxs y hy
  cases xs with
  | nil =>
    rw [hnil] at hy
    cases hy
  | cons x xs =>
    rw [hmerge] at hy
    induction xs generalizing x with
    | nil =>
      cases hy
      exact hxs _ List.mem_cons_self
    | cons x' xs ih =>
      obtain ⟨z, hz, hkept⟩ := hplus x x' (hxs x (by simp)) (hxs x' (by simp))
      rw [List.foldlM_cons, hz] at hy
      exact ih z (List.forall_mem_cons.mpr ⟨hkept, fun w hw => hxs w (by simp [hw])⟩) hy

/-- Each of the values on its own. -/
theorem SumsUp.of_values {xs : List α} (h : ∀ x ∈ xs, K x) :
    SumsUp (AddsUp plus K) (xs.map some) xs := by
  have hall : List.Forall₂ (AddsUp plus K) (xs.map some) (xs.map fun x => [x]) := by
    rw [List.forall₂_map_left_iff, List.forall₂_map_right_iff, List.forall₂_same]
    exact fun x hx => ⟨x, rfl, h x hx, .one x⟩
  have hflat : (xs.map fun x => [x]).flatten = xs := by
    rw [← List.flatMap_def, List.flatMap_singleton']
  exact ⟨_, hall, .of_eq hflat⟩

end

end RCompss.Library
