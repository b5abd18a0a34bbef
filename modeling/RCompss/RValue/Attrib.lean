import RCompss.RValue.Sexp

/-! The attribute accessors of R, and what R keeps true of every value it hands out. -/
namespace RCompss
namespace SEXP

/-- `names` fit `n` elements. -/
def isNames (n : ℕ) : SEXP → Bool
  | .atom (.str ns) _ => ns.length == n
  | _ => false

/-- The extents of a `dim` attribute. -/
def extents : SEXP → List (BitVec 32)
  | .atom (.int ds) _ => ds
  | _ => []

/-- At least one extent, none negative (so none NA), and their product is the length. -/
def isDims (n : ℕ) (x : SEXP) : Bool :=
  !x.extents.isEmpty && x.extents.all (fun d => decide (0 ≤ d.toInt)) &&
    (x.extents.map BitVec.toNat).prod == n

/-- One component of `dimnames` under its extent. -/
def isDimName (d : BitVec 32) : SEXP → Bool
  | .nil => true
  | .atom (.str ns) _ => ns.length == d.toNat && !ns.isEmpty
  | _ => false

/-- A list with one component for each extent of an array. -/
def isDimNames (ds : List (BitVec 32)) : SEXP → Bool
  | .vec xs _ =>
      !ds.isEmpty && xs.length == ds.length && (ds.zip xs).all fun p => isDimName p.1 p.2
  | _ => false

def stripAttrib (s : Symbol) (as : List (Symbol × SEXP)) : List (Symbol × SEXP) :=
  as.filter fun p => p.1 ≠ s

/-- Without its dims a value has no dimnames either. -/
def removeAttrib (v : SEXP) (s : Symbol) : SEXP :=
  v.withAttrib (stripAttrib s (if s = R_DimSymbol then stripAttrib R_DimNamesSymbol v.attrib
    else v.attrib))

/-- Replace the entry under a tag, or append one. -/
def installEntry (s : Symbol) (x : SEXP) : List (Symbol × SEXP) → List (Symbol × SEXP)
  | [] => [(s, x)]
  | (t, y) :: as => if t = s then (t, x) :: as else (t, y) :: installEntry s x as

def installAttrib (v : SEXP) (s : Symbol) (x : SEXP) : SEXP :=
  v.withAttrib (installEntry s x v.attrib)

theorem stripAttrib_of_absent {s : Symbol} {as : List (Symbol × SEXP)} (h : ∀ p ∈ as, p.1 ≠ s) :
    stripAttrib s as = as :=
  List.filter_eq_self.mpr fun p hp => by simpa using h p hp

theorem installEntry_of_absent {s : Symbol} {x : SEXP} {as : List (Symbol × SEXP)}
    (h : ∀ p ∈ as, p.1 ≠ s) : installEntry s x as = as ++ [(s, x)] := by
  induction as with
  | nil => rfl
  | cons p as ih =>
    obtain ⟨t, y⟩ := p
    have ht : t ≠ s := h (t, y) (by simp)
    rw [installEntry, if_neg ht, ih fun q hq => h q (by simp [hq])]
    rfl

/-- Arguments that `Rf_setAttrib` stores as they are. A one-dimensional array is not
among them for `names`: there R writes the dimnames. -/
def storesAttrib (v : SEXP) (s : Symbol) (x : SEXP) : Bool :=
  v.isVector && (
    (s == R_NamesSymbol && !v.isOneDimensionalArray && isNames v.length x) ||
    (s == R_DimSymbol && isDims v.length x) ||
    (s == R_DimNamesSymbol && isDimNames (v.attribOf R_DimSymbol).extents x))

/-- What `Rf_setAttrib` does with any other argument: a coercion, another attribute, or
an R error. Nothing is assumed of it. -/
abbrev Coercion := SEXP → Symbol → SEXP → Except String SEXP

/-- `Rf_setAttrib`. Setting `NULL` removes; setting dims drops old dimnames. -/
def setAttrib (coerce : Coercion) (v : SEXP) (s : Symbol) (x : SEXP) : Except String SEXP :=
  if x.isNil then .ok (v.removeAttrib s)
  else if v.storesAttrib s x then
    .ok ((if s = R_DimSymbol then v.removeAttrib R_DimNamesSymbol else v).installAttrib s x)
  else coerce v s x

/-- What R keeps true of a vector: distinct tags, no `NULL` attribute, and `names`,
`dim` and `dimnames` that fit the data. The last bound is R's longest vector. -/
def wellFormedHere (v : SEXP) : Bool :=
  !v.isVector || (
    decide (v.attrib.map Prod.fst).Nodup && v.attrib.all (fun p => !p.2.isNil) &&
    ((v.attribOf R_NamesSymbol).isNil || isNames v.length (v.attribOf R_NamesSymbol)) &&
    ((v.attribOf R_DimSymbol).isNil || isDims v.length (v.attribOf R_DimSymbol)) &&
    ((v.attribOf R_DimNamesSymbol).isNil ||
      isDimNames (v.attribOf R_DimSymbol).extents (v.attribOf R_DimNamesSymbol)) &&
    decide (v.length ≤ 2 ^ 52))

/-- A value as R builds it, at every level. -/
def WellFormed (v : SEXP) : Prop := v.everywhere wellFormedHere = true

instance (v : SEXP) : Decidable v.WellFormed := inferInstanceAs (Decidable (_ = true))

mutual

/-- `identical()`: equal data, and the attributes as a set. -/
def identical : SEXP → SEXP → Bool
  | .nil, .nil => true
  | .atom d as, .atom e bs => d == e && as.length == bs.length && identicalAttrib as bs
  | .vec xs as, .vec ys bs =>
      identicalList xs ys && as.length == bs.length && identicalAttrib as bs
  | .other o as, .other p bs => o == p && as.length == bs.length && identicalAttrib as bs
  | _, _ => false

def identicalList : List SEXP → List SEXP → Bool
  | [], [] => true
  | x :: xs, y :: ys => identical x y && identicalList xs ys
  | _, _ => false

/-- Every attribute on the left has its equal on the right. -/
def identicalAttrib : List (Symbol × SEXP) → List (Symbol × SEXP) → Bool
  | [], _ => true
  | (s, x) :: as, bs =>
      (match bs.lookup s with
        | some y => identical x y
        | none => false) && identicalAttrib as bs

end

theorem identicalList_map_map {xs : List SEXP} {f g : SEXP → SEXP}
    (h : ∀ x ∈ xs, identical (f x) (g x) = true) :
    identicalList (xs.map f) (xs.map g) = true := by
  induction xs with
  | nil => rfl
  | cons x xs ih =>
    simp only [List.map_cons, identicalList, Bool.and_eq_true]
    exact ⟨h x (by simp), ih fun y hy => h y (by simp [hy])⟩

theorem identicalList_map {xs : List SEXP} {f : SEXP → SEXP}
    (h : ∀ x ∈ xs, identical x (f x) = true) : identicalList xs (xs.map f) = true := by
  simpa using identicalList_map_map (f := id) h

theorem identicalAttrib_iff {as bs : List (Symbol × SEXP)} :
    identicalAttrib as bs = true ↔
      ∀ p ∈ as, ∃ y, bs.lookup p.1 = some y ∧ identical p.2 y = true := by
  induction as with
  | nil => simp [identicalAttrib]
  | cons p as ih =>
    obtain ⟨s, x⟩ := p
    simp only [identicalAttrib, Bool.and_eq_true, ih, List.forall_mem_cons]
    refine and_congr_left fun _ => ?_
    cases bs.lookup s <;> simp

theorem mem_keys_iff {s : Symbol} {as : List (Symbol × SEXP)} :
    s ∈ as.map Prod.fst ↔ (as.lookup s).isSome = true := by
  induction as with
  | nil => simp
  | cons p as ih =>
    obtain ⟨t, x⟩ := p
    by_cases hs : s = t
    · simp [hs]
    · simp [List.lookup_cons, hs, ih, beq_false_of_ne hs]

theorem lookup_of_mem {as : List (Symbol × SEXP)} (hn : (as.map Prod.fst).Nodup)
    {p : Symbol × SEXP} (hp : p ∈ as) : as.lookup p.1 = some p.2 := by
  induction as with
  | nil => simp at hp
  | cons q as ih =>
    rw [List.map_cons, List.nodup_cons] at hn
    obtain ⟨t, x⟩ := q
    rcases List.mem_cons.mp hp with rfl | hp
    · rw [List.lookup_cons_self]
    · have hne : p.1 ≠ t := fun h => hn.1 (List.mem_map.mpr ⟨p, hp, h⟩)
      rw [List.lookup_cons, beq_false_of_ne hne]
      exact ih hn.2 hp

/-- Attribute lists with distinct tags are the same set when every tag finds equal values. -/
theorem identicalAttrib_of_lookup {as bs : List (Symbol × SEXP)}
    (ha : (as.map Prod.fst).Nodup) (hb : (bs.map Prod.fst).Nodup)
    (h : ∀ s, Option.Rel (fun x y => identical x y = true) (as.lookup s) (bs.lookup s)) :
    as.length = bs.length ∧ identicalAttrib as bs = true := by
  have hkeys : (as.map Prod.fst).Perm (bs.map Prod.fst) := by
    rw [List.perm_ext_iff_of_nodup ha hb]
    intro s
    rw [mem_keys_iff, mem_keys_iff]
    have hrel := h s
    revert hrel
    cases as.lookup s <;> cases bs.lookup s <;> rintro ⟨⟩ <;> simp
  refine ⟨by simpa using hkeys.length_eq, identicalAttrib_iff.mpr fun p hp => ?_⟩
  have hrel := h p.1
  rw [lookup_of_mem ha hp] at hrel
  rcases hy : bs.lookup p.1 with _ | y <;> rw [hy] at hrel <;> cases hrel
  exact ⟨y, rfl, ‹_›⟩

/-- Without `NULL` attributes a tag is absent exactly when its value is `NULL`. -/
theorem lookup_attrib {v : SEXP} (h : ∀ p ∈ v.attrib, p.2 ≠ .nil) (s : Symbol) :
    v.attrib.lookup s = if v.attribOf s = .nil then none else some (v.attribOf s) := by
  unfold attribOf
  rcases hs : v.attrib.lookup s with _ | x
  · simp
  · simp [h _ (mem_of_lookup hs)]

end SEXP
end RCompss
