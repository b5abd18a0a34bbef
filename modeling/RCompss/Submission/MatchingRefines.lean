import RCompss.Submission.DecoratedTask

/-! The matching of a call against R's own, for functions whose formals all have names. -/
namespace RCompss.Submission
open RCompss.Library

section
variable {α β : Type}

/-- The values that come without a name. -/
def unnamedValues (values : List (Text × α)) : List α := (values.filter (·.1 = [])).map Prod.snd

/-- The formals that no value names. -/
def freeFormals (names : List Text) (values : List (Text × α)) : List Text :=
  names.filter fun name => (values.lookup name).isNone

/-- What R binds to a formal: the value of its name, and otherwise the unnamed value in the
place that it has among the formals which no value names. -/
def boundValue (names : List Text) (values : List (Text × α)) (name : Text) : Option α :=
  match values.lookup name with
  | some v => some v
  | none => (unnamedValues values)[(freeFormals names values).idxOf name]?

/-- R accepts the call, by exact names and by position. -/
structure Accepted (names : List Text) (values : List (Text × α)) : Prop where
  distinct : names.Nodup
  named : ∀ name ∈ names, name ≠ [] ∧ name ≠ "...".toList
  known : ∀ v ∈ values, v.1 ≠ [] → v.1 ∈ names
  once : values.Pairwise fun v w => v.1 ≠ [] → v.1 ≠ w.1
  room : (unnamedValues values).length ≤ (freeFormals names values).length

end

/-- The formals in order, each with the value R binds to it or its default. -/
def rMatch (formals : Arguments) (values : List (Text × SEXP)) : Arguments :=
  formals.map fun f => (f.1, (boundValue (formals.map Prod.fst) values f.1).getD f.2)

/-- Values that R evaluates where they stand in a call. -/
def isCode : SEXP → Bool
  | .other o _ => [OpaqueType.SYMSXP, .LANGSXP, .PROMSXP, .BCODESXP, .DOTSXP].contains o.type
  | _ => false

/-- `do.call` puts a value into a call; `eval` is R's evaluator. -/
def doCallValue (eval : SEXP → Except Failure SEXP) (v : SEXP) : Except Failure SEXP :=
  if isCode v then eval v else .ok v

def doCallValues (eval : SEXP → Except Failure SEXP) :
    List (Text × SEXP) → Except Failure (List (Text × SEXP))
  | [] => return []
  | v :: values => do
      let value ← doCallValue eval v.2
      let values ← doCallValues eval values
      return (v.1, value) :: values

/-- The argument list that a call of the decorated function comes to. -/
def boundArguments (eval : SEXP → Except Failure SEXP) (fName : Text) (formals : Arguments)
    (values : List (Text × SEXP)) : Except Failure Arguments := do
  namedOnce values
  let values ← doCallValues eval values
  matchArguments fName formals values

section
variable {α β : Type} {names : List Text} {name : Text}

theorem lookup_map (g : α → β) (values : List (Text × α)) (name : Text) :
    (values.map fun v => (v.1, g v.2)).lookup name = (values.lookup name).map g := by
  induction values with
  | nil => rfl
  | cons v values ih =>
    rw [List.map_cons, List.lookup_cons, List.lookup_cons, ih]
    cases name == v.1 <;> rfl

theorem freeFormals_map (g : α → β) (names : List Text) (values : List (Text × α)) :
    freeFormals names (values.map fun v => (v.1, g v.2)) = freeFormals names values := by
  unfold freeFormals
  simp only [lookup_map, Option.isNone_map]

theorem unnamedValues_map (g : α → β) (values : List (Text × α)) :
    unnamedValues (values.map fun v => (v.1, g v.2)) = (unnamedValues values).map g := by
  simp only [unnamedValues, List.filter_map, List.map_map]
  rfl

/-- Binding does not look at the values. -/
theorem boundValue_map (g : α → β) (names : List Text) (values : List (Text × α)) (name : Text) :
    boundValue names (values.map fun v => (v.1, g v.2)) name =
      (boundValue names values name).map g := by
  unfold boundValue
  rw [lookup_map, freeFormals_map, unnamedValues_map, List.getElem?_map]
  cases values.lookup name <;> rfl

theorem lookup_of_once {values : List (Text × α)}
    (h : values.Pairwise fun v w => v.1 ≠ [] → v.1 ≠ w.1) {v : Text × α} (hv : v ∈ values)
    (hname : v.1 ≠ []) : values.lookup v.1 = some v.2 := by
  induction values with
  | nil => cases hv
  | cons w values ih =>
    obtain ⟨hw, hrest⟩ := List.pairwise_cons.mp h
    rcases List.mem_cons.mp hv with rfl | hmem
    · rw [List.lookup_cons_self]
    · have hne : v.1 ≠ w.1 := by
        intro heq
        exact hw v hmem (heq ▸ hname) heq.symm
      rw [List.lookup_cons, beq_false_of_ne hne]
      exact ih hrest hmem

/-- Every value of an accepted call is bound to some formal. -/
theorem Accepted.bound {values : List (Text × α)} (h : Accepted names values) {v : Text × α}
    (hv : v ∈ values) : ∃ name ∈ names, boundValue names values name = some v.2 := by
  by_cases hname : v.1 = []
  · have hmem : v.2 ∈ unnamedValues values :=
      List.mem_map_of_mem (List.mem_filter.mpr ⟨hv, by simpa using hname⟩)
    obtain ⟨k, hk, hget⟩ := List.getElem_of_mem hmem
    have hfree : k < (freeFormals names values).length := lt_of_lt_of_le hk h.room
    have hnth := List.getElem_mem hfree
    obtain ⟨hin, hnone⟩ := List.mem_filter.mp hnth
    have hindex : (freeFormals names values).idxOf (freeFormals names values)[k] = k :=
      (h.distinct.filter _).idxOf_getElem k hfree
    refine ⟨_, hin, ?_⟩
    unfold boundValue
    rw [Option.isNone_iff_eq_none.mp hnone]
    simp only [hindex]
    rw [List.getElem?_eq_getElem hk, hget]
  · refine ⟨v.1, h.known v hv hname, ?_⟩
    unfold boundValue
    rw [lookup_of_once h.once hv hname]

/-- Only values of the call are bound. -/
theorem mem_of_boundValue {values : List (Text × α)} {x : α}
    (h : boundValue names values name = some x) : ∃ v ∈ values, v.2 = x := by
  unfold boundValue at h
  split at h
  next y hlookup =>
    cases h
    obtain ⟨front, back, rfl, _⟩ := List.lookup_eq_some_iff.mp hlookup
    exact ⟨(name, x), by simp, rfl⟩
  next =>
    obtain ⟨v, hv, rfl⟩ := List.mem_map.mp (List.mem_of_getElem? h)
    exact ⟨v, (List.mem_filter.mp hv).1, rfl⟩

end

section
variable {values : List (Text × SEXP)} {names : List Text} {unnamed : List SEXP}

/-- The value for the next formal, and the unnamed values that remain for the others. -/
def supplied (values : List (Text × SEXP)) (unnamed : List SEXP) (name : Text) : Option SEXP :=
  (values.lookup name).or unnamed.head?

def remaining (values : List (Text × SEXP)) (unnamed : List SEXP) (name : Text) : List SEXP :=
  if (values.lookup name).isSome then unnamed else unnamed.tail

/-- One round of the loop over the formals. -/
theorem matchNamed_cons (i : ℕ) (name : Text) (names : List Text) (unnamed : List SEXP)
    (arguments : Arguments) : matchNamed values i (name :: names) unnamed arguments =
      matchNamed values (i + 1) names (remaining values unnamed name)
        (match supplied values unnamed name with
          | some v => assignArgument arguments i v
          | none => arguments) := by
  unfold supplied remaining
  cases hlookup : values.lookup name with
  | some v => simp [matchNamed, hlookup]
  | none => cases unnamed <;> simp [matchNamed, hlookup]

/-- What the loop binds to a formal from some place on. -/
def boundFrom (values : List (Text × SEXP)) (names : List Text) (unnamed : List SEXP)
    (name : Text) : Option SEXP :=
  (values.lookup name).or unnamed[(freeFormals names values).idxOf name]?

theorem boundFrom_head (values : List (Text × SEXP)) (name : Text) (names : List Text)
    (unnamed : List SEXP) :
    boundFrom values (name :: names) unnamed name = supplied values unnamed name := by
  unfold boundFrom supplied freeFormals
  cases hlookup : values.lookup name with
  | some v => rfl
  | none => simp [hlookup, List.head?_eq_getElem?]

theorem boundFrom_tail {name other : Text} (hne : other ≠ name) (names : List Text)
    (unnamed : List SEXP) : boundFrom values (name :: names) unnamed other =
      boundFrom values names (remaining values unnamed name) other := by
  unfold boundFrom remaining freeFormals
  cases hlookup : values.lookup name with
  | some v => simp [hlookup]
  | none => simp [hlookup, List.idxOf_cons_ne _ hne.symm]

theorem boundFrom_unnamedValues (names : List Text) (values : List (Text × SEXP)) (name : Text) :
    boundFrom values names (unnamedValues values) name = boundValue names values name := by
  unfold boundFrom boundValue
  cases values.lookup name <;> rfl

/-- A value that is not `NULL` takes the place of the default. -/
theorem assignArgument_at (front : Arguments) (f : Text × SEXP) (back : Arguments) {v : SEXP}
    (hv : v ≠ .nil) : assignArgument (front ++ f :: back) front.length v =
      (front ++ [(f.1, v)]) ++ back := by
  unfold assignArgument
  rw [if_neg hv, if_pos (by simp), List.append_assoc]
  induction front with
  | nil => rfl
  | cons g front ih => exact congrArg (g :: ·) ih

/-- `NULL` takes the formal away. -/
theorem assignArgument_nil (front : Arguments) (f : Text × SEXP) (back : Arguments) :
    assignArgument (front ++ f :: back) front.length .nil = front ++ back := by
  unfold assignArgument
  rw [if_pos rfl, List.eraseIdx_append_of_length_le le_rfl, Nat.sub_self]
  rfl

/-- Without `NULL` the loop fills the formals in place. -/
theorem matchNamed_fills (front back : Arguments)
    (hdistinct : (back.map Prod.fst).Nodup) (unnamed : List SEXP)
    (hnull : ∀ f ∈ back, boundFrom values (back.map Prod.fst) unnamed f.1 ≠ some .nil) :
    matchNamed values front.length (back.map Prod.fst) unnamed (front ++ back) =
      front ++ back.map fun f =>
        (f.1, (boundFrom values (back.map Prod.fst) unnamed f.1).getD f.2) := by
  induction back generalizing front unnamed with
  | nil => simp [matchNamed]
  | cons f back ih =>
    rw [List.map_cons, List.nodup_cons] at hdistinct
    obtain ⟨hfresh, hdistinct⟩ := hdistinct
    have hhead := boundFrom_head values f.1 (back.map Prod.fst) unnamed
    have htail : ∀ g ∈ back, boundFrom values (f.1 :: back.map Prod.fst) unnamed g.1 =
        boundFrom values (back.map Prod.fst) (remaining values unnamed f.1) g.1 := by
      intro g hg
      apply boundFrom_tail
      intro heq
      exact hfresh (heq ▸ List.mem_map_of_mem hg)
    have hrest : ∀ g ∈ back, boundFrom values (back.map Prod.fst)
        (remaining values unnamed f.1) g.1 ≠ some .nil := by
      intro g hg
      rw [← htail g hg]
      exact hnull g (List.mem_cons_of_mem _ hg)
    have hfirst := hnull f List.mem_cons_self
    rw [List.map_cons, hhead] at hfirst
    have hplace : (match supplied values unnamed f.1 with
        | some v => assignArgument (front ++ f :: back) front.length v
        | none => front ++ f :: back) =
          (front ++ [(f.1, (supplied values unnamed f.1).getD f.2)]) ++ back := by
      cases hv : supplied values unnamed f.1 with
      | none => simp
      | some v =>
        rw [hv] at hfirst
        exact assignArgument_at front f back fun hnil => hfirst (congrArg some hnil)
    have hloop := ih (front ++ [(f.1, (supplied values unnamed f.1).getD f.2)]) hdistinct
      (remaining values unnamed f.1) hrest
    rw [List.length_append, List.length_singleton] at hloop
    rw [List.map_cons, matchNamed_cons, hplace, hloop, List.map_cons, hhead,
      List.append_assoc, List.singleton_append]
    congr 2
    apply List.map_congr_left
    intro g hg
    rw [htail g hg]

/-- An assignment leaves what stands further in front. -/
theorem assignArgument_getElem? {arguments : Arguments} {i k : ℕ} (v : SEXP) (hk : k < i)
    (hlt : k < arguments.length) :
    (assignArgument arguments i v)[k]? = arguments[k]? ∧
      k < (assignArgument arguments i v).length := by
  unfold assignArgument
  split
  · constructor
    · exact List.getElem?_eraseIdx_of_lt hk
    · rw [List.length_eraseIdx]
      split <;> omega
  split
  · have hne : i ≠ k := by omega
    constructor
    · simp [hne]
    · simpa using hlt
  · constructor
    · rw [List.append_assoc, List.getElem?_append_left hlt]
    · simp only [List.length_append]
      omega

theorem matchNamed_getElem? (values : List (Text × SEXP)) (names : List Text)
    (unnamed : List SEXP) (arguments : Arguments) {i k : ℕ} (hk : k < i)
    (hlt : k < arguments.length) :
    (matchNamed values i names unnamed arguments)[k]? = arguments[k]? := by
  induction names generalizing i unnamed arguments with
  | nil => rfl
  | cons name names ih =>
    rw [matchNamed_cons]
    cases supplied values unnamed name with
    | none => exact ih _ _ (by omega) hlt
    | some v =>
      obtain ⟨hsame, hlt'⟩ := assignArgument_getElem? v hk hlt
      exact (ih _ _ (by omega) hlt').trans hsame

/-- With a `NULL` to bind, the loop does not leave the formals their names: one is gone and
the next stands in its place. -/
theorem matchNamed_null (front back : Arguments)
    (hdistinct : (back.map Prod.fst).Nodup) (unnamed : List SEXP)
    (hnull : ∃ f ∈ back, boundFrom values (back.map Prod.fst) unnamed f.1 = some .nil) :
    (matchNamed values front.length (back.map Prod.fst) unnamed (front ++ back)).map Prod.fst ≠
      (front ++ back).map Prod.fst := by
  induction back generalizing front unnamed with
  | nil =>
    obtain ⟨f, hf, _⟩ := hnull
    cases hf
  | cons f back ih =>
    rw [List.map_cons, List.nodup_cons] at hdistinct
    obtain ⟨hfresh, hdistinct⟩ := hdistinct
    rw [List.map_cons, matchNamed_cons]
    by_cases hfirst : supplied values unnamed f.1 = some .nil
    · rw [hfirst]
      simp only [assignArgument_nil]
      intro hnames
      cases back with
      | nil =>
        have hlen := congrArg List.length hnames
        simp [matchNamed] at hlen
      | cons g back =>
        have hplace := matchNamed_getElem? values ((g :: back).map Prod.fst)
          (remaining values unnamed f.1) (front ++ g :: back) (Nat.lt_succ_self front.length)
          (by simp)
        have hg := congrArg (fun l => l[front.length]?) hnames
        simp only [List.getElem?_map, hplace] at hg
        simp at hg
        exact hfresh (by simp [hg])
    · have hplace : ∃ x, (match supplied values unnamed f.1 with
          | some v => assignArgument (front ++ f :: back) front.length v
          | none => front ++ f :: back) = (front ++ [(f.1, x)]) ++ back := by
        cases hv : supplied values unnamed f.1 with
        | none => exact ⟨f.2, by simp⟩
        | some v =>
          rw [hv] at hfirst
          exact ⟨v, assignArgument_at front f back fun hnil => hfirst (congrArg some hnil)⟩
      obtain ⟨x, hplace⟩ := hplace
      have hback : ∃ g ∈ back, boundFrom values (back.map Prod.fst)
          (remaining values unnamed f.1) g.1 = some .nil := by
        obtain ⟨g, hg, hbound⟩ := hnull
        rcases List.mem_cons.mp hg with rfl | hg
        · rw [List.map_cons, boundFrom_head] at hbound
          exact absurd hbound hfirst
        · refine ⟨g, hg, ?_⟩
          rw [List.map_cons, boundFrom_tail] at hbound
          · exact hbound
          · intro heq
            exact hfresh (heq ▸ List.mem_map_of_mem hg)
      have hloop := ih (front ++ [(f.1, x)]) hdistinct (remaining values unnamed f.1) hback
      rw [List.length_append, List.length_singleton] at hloop
      rw [hplace]
      simpa using hloop

/-- Without names among the values position alone decides. -/
theorem matchNamed_positional (i : ℕ) (names : List Text) (unnamed : List SEXP)
    (arguments : Arguments) (h : ∀ name ∈ names, values.lookup name = none) :
    matchNamed values i names unnamed arguments = matchPositional i names unnamed arguments := by
  induction names generalizing i unnamed arguments with
  | nil => rfl
  | cons name names ih =>
    have hrest := fun n hn => h n (List.mem_cons_of_mem _ hn)
    have hfree := h name List.mem_cons_self
    rw [matchNamed_cons, supplied, remaining, hfree]
    cases unnamed with
    | nil =>
      have htail := ih (i + 1) [] arguments hrest
      cases names <;> exact htail
    | cons v unnamed => exact ih (i + 1) unnamed _ hrest

/-- For formals with names both branches are the one loop. -/
theorem matchArguments_eq (fName : Text) (formals : Arguments)
    (h : Accepted (formals.map Prod.fst) values) : matchArguments fName formals values =
      .ok (matchNamed values 0 (formals.map Prod.fst) (unnamedValues values) formals) := by
  have hdots : "...".toList ∉ formals.map Prod.fst := fun hmem => (h.named _ hmem).2 rfl
  have honly : formals.map Prod.fst ≠ ["...".toList] := by
    intro heq
    rw [heq] at hdots
    exact hdots (by simp)
  unfold matchArguments
  simp only [if_neg honly, hdots, and_false, if_false]
  split
  next hall =>
    have hempty : ∀ v ∈ values, v.1 = [] := by simpa using hall
    have hunnamed : unnamedValues values = values.map Prod.snd := by
      rw [unnamedValues, List.filter_eq_self.mpr fun v hv => by simp [hempty v hv]]
    have hnone : ∀ name ∈ formals.map Prod.fst, values.lookup name = none := by
      intro name hname
      rw [List.lookup_eq_none_iff]
      intro v hv
      rw [hempty v hv]
      simpa using (h.named name hname).1
    rw [hunnamed, matchNamed_positional 0 _ _ _ hnone]
  next => rfl

/-- Whether a call is accepted does not depend on its values. -/
theorem accepted_map {α β : Type} {values : List (Text × α)} (g : α → β) :
    Accepted names (values.map fun v => (v.1, g v.2)) ↔ Accepted names values := by
  constructor
  · intro h
    have hroom := h.room
    rw [unnamedValues_map, List.length_map, freeFormals_map] at hroom
    exact ⟨h.distinct, h.named, fun v hv => h.known (v.1, g v.2) (List.mem_map_of_mem hv),
      List.pairwise_map.mp h.once, hroom⟩
  · intro h
    refine ⟨h.distinct, h.named, fun v hv => ?_, List.pairwise_map.mpr h.once, ?_⟩
    · obtain ⟨w, hw, rfl⟩ := List.mem_map.mp hv
      exact h.known w hw
    · rw [unnamedValues_map, List.length_map, freeFormals_map]
      exact h.room

/-- An accepted call without `NULL` gives every formal what R gives it. -/
theorem matchArguments_rMatch (fName : Text) {formals : Arguments}
    (h : Accepted (formals.map Prod.fst) values) (hnull : ∀ v ∈ values, v.2 ≠ .nil) :
    matchArguments fName formals values = .ok (rMatch formals values) := by
  have hbound : ∀ f ∈ formals, boundFrom values (formals.map Prod.fst) (unnamedValues values)
      f.1 ≠ some .nil := by
    intro f _ hf
    rw [boundFrom_unnamedValues] at hf
    obtain ⟨v, hv, hvnil⟩ := mem_of_boundValue hf
    exact hnull v hv hvnil
  have hloop := matchNamed_fills [] formals h.distinct (unnamedValues values) hbound
  rw [matchArguments_eq fName formals h]
  simpa [rMatch, boundFrom_unnamedValues] using hloop

/-- Where the formals keep their names no `NULL` was given. -/
theorem not_null_of_names (fName : Text) {formals arguments : Arguments}
    (h : Accepted (formals.map Prod.fst) values)
    (hok : matchArguments fName formals values = .ok arguments)
    (hnames : arguments.map Prod.fst = formals.map Prod.fst) : ∀ v ∈ values, v.2 ≠ .nil := by
  intro v hv hnil
  obtain ⟨name, hname, hbound⟩ := h.bound hv
  obtain ⟨f, hf, rfl⟩ := List.mem_map.mp hname
  rw [matchArguments_eq fName formals h] at hok
  have hnull : ∃ f ∈ formals, boundFrom values (formals.map Prod.fst) (unnamedValues values)
      f.1 = some .nil := by
    refine ⟨f, hf, ?_⟩
    rw [boundFrom_unnamedValues, hbound, hnil]
  apply matchNamed_null [] formals h.distinct (unnamedValues values) hnull
  rw [← Except.ok.inj hok] at hnames
  exact hnames

theorem names_rMatch (formals : Arguments) (values : List (Text × SEXP)) :
    (rMatch formals values).map Prod.fst = formals.map Prod.fst := by
  unfold rMatch
  rw [List.map_map]
  rfl

/-- Every value of an accepted call shows in what R binds. -/
theorem eq_of_rMatch {formals : Arguments} {pairs : List (Text × SEXP × SEXP)}
    (h : Accepted (formals.map Prod.fst) pairs)
    (hsame : rMatch formals (pairs.map fun p => (p.1, p.2.1)) =
      rMatch formals (pairs.map fun p => (p.1, p.2.2))) : ∀ p ∈ pairs, p.2.1 = p.2.2 := by
  intro p hp
  obtain ⟨name, hname, hbound⟩ := h.bound hp
  obtain ⟨f, hf, rfl⟩ := List.mem_map.mp hname
  have hat := List.map_inj_left.mp hsame f hf
  rw [boundValue_map, boundValue_map, hbound] at hat
  exact congrArg Prod.snd hat

/-- Each value next to what `do.call` makes of it. -/
theorem doCallValues_ok {eval : SEXP → Except Failure SEXP} {values evaluated : List (Text × SEXP)}
    (h : doCallValues eval values = .ok evaluated) :
    ∃ pairs : List (Text × SEXP × SEXP), values = pairs.map (fun p => (p.1, p.2.1)) ∧
      evaluated = pairs.map (fun p => (p.1, p.2.2)) ∧
      ∀ p ∈ pairs, isCode p.2.1 = true → eval p.2.1 = .ok p.2.2 := by
  induction values generalizing evaluated with
  | nil =>
    cases h
    exact ⟨[], rfl, rfl, by simp⟩
  | cons v values ih =>
    unfold doCallValues at h
    obtain ⟨value, hvalue, h⟩ := except_bind_eq_ok.mp h
    obtain ⟨rest, hrest, h⟩ := except_bind_eq_ok.mp h
    cases h
    obtain ⟨pairs, rfl, rfl, hpairs⟩ := ih hrest
    refine ⟨(v.1, v.2, value) :: pairs, rfl, rfl, ?_⟩
    intro p hp hcode
    rcases List.mem_cons.mp hp with rfl | hp
    · rwa [doCallValue, if_pos hcode] at hvalue
    · exact hpairs p hp hcode

theorem doCallValues_self {eval : SEXP → Except Failure SEXP} {values : List (Text × SEXP)}
    (h : ∀ v ∈ values, isCode v.2 = true → eval v.2 = .ok v.2) :
    doCallValues eval values = .ok values := by
  induction values with
  | nil => rfl
  | cons v values ih =>
    have hvalue : doCallValue eval v.2 = .ok v.2 := by
      unfold doCallValue
      split
      next hcode => exact h v List.mem_cons_self hcode
      next => rfl
    unfold doCallValues
    rw [hvalue, ih fun w hw => h w (List.mem_cons_of_mem _ hw)]
    rfl

theorem namedOnce_ok_iff (values : List (Text × SEXP)) :
    namedOnce values = .ok () ↔ ∀ v ∈ values, v.1 ∉ decoratorFormals := by
  unfold namedOnce
  constructor
  · intro h v hv hmem
    cases hfind : decoratorFormals.find? fun name => values.any (·.1 = name) with
    | some name => rw [hfind] at h; cases h
    | none =>
      have hnot := List.find?_eq_none.mp hfind v.1 hmem
      simp at hnot
      exact hnot v.2 hv
  · intro h
    have hfind : (decoratorFormals.find? fun name => values.any (·.1 = name)) = none := by
      rw [List.find?_eq_none]
      intro name hname hany
      simp only [List.any_eq_true, decide_eq_true_eq] at hany
      obtain ⟨v, hv, rfl⟩ := hany
      exact h v hv hname
    rw [hfind]

/-- A call that R accepts has its arguments bound as R binds them exactly when no value is
`NULL`, none has the name of one of the binding's own parameters, and R code among the values
evaluates to itself. -/
theorem boundArguments_iff (eval : SEXP → Except Failure SEXP) (fName : Text)
    (formals : Arguments) (values : List (Text × SEXP))
    (h : Accepted (formals.map Prod.fst) values) :
    boundArguments eval fName formals values = .ok (rMatch formals values) ↔
      ∀ v ∈ values, v.1 ∉ decoratorFormals ∧ v.2 ≠ .nil ∧
        (isCode v.2 = true → eval v.2 = .ok v.2) := by
  constructor
  · intro hbound
    obtain ⟨⟨⟩, honce, hbound⟩ := except_bind_eq_ok.mp hbound
    obtain ⟨evaluated, hevaluated, hmatch⟩ := except_bind_eq_ok.mp hbound
    obtain ⟨pairs, rfl, rfl, hpairs⟩ := doCallValues_ok hevaluated
    have hpaired : Accepted (formals.map Prod.fst) pairs := (accepted_map Prod.fst).mp h
    have haccepted : Accepted (formals.map Prod.fst) (pairs.map fun p => (p.1, p.2.2)) :=
      (accepted_map Prod.snd).mpr hpaired
    have hnull := not_null_of_names fName haccepted hmatch (names_rMatch formals _)
    have hsame := Except.ok.inj ((matchArguments_rMatch fName haccepted hnull).symm.trans hmatch)
    have hself := eq_of_rMatch hpaired hsame.symm
    intro v hv
    obtain ⟨p, hp, rfl⟩ := List.mem_map.mp hv
    constructor
    · exact (namedOnce_ok_iff _).mp honce _ hv
    constructor
    · intro hnil
      apply hnull (p.1, p.2.2) (List.mem_map.mpr ⟨p, hp, rfl⟩)
      rw [← hself p hp]
      exact hnil
    · intro hcode
      rw [hpairs p hp hcode, hself p hp]
  · intro hvalues
    have honce := (namedOnce_ok_iff values).mpr fun v hv => (hvalues v hv).1
    have hself := doCallValues_self fun v hv => (hvalues v hv).2.2
    have hmatch := matchArguments_rMatch fName h fun v hv => (hvalues v hv).2.1
    unfold boundArguments
    rw [honce, hself]
    exact hmatch

end

/-- The doubles 5, by name, and 3, by position. -/
def mixedValues : List (Text × SEXP) :=
  [("y".toList, .atom (.real [0x4014000000000000#64]) []),
    ([], .atom (.real [0x4008000000000000#64]) [])]

theorem mixedValues_accepted : Accepted (addTask.formals.map Prod.fst) mixedValues where
  distinct := by decide
  named := by decide
  known := by decide
  once := by simp [mixedValues]
  room := by decide

theorem mixedValues_bound :
    boundArguments .ok "add".toList addTask.formals mixedValues =
      .ok (rMatch addTask.formals mixedValues) := by
  have hnames : ∀ v ∈ mixedValues, v.1 ∉ decoratorFormals := by decide
  have hnull : ∀ v ∈ mixedValues, v.2 ≠ .nil := by decide
  apply (boundArguments_iff .ok "add".toList addTask.formals mixedValues mixedValues_accepted).mpr
  exact fun v hv => ⟨hnames v hv, hnull v hv, fun _ => rfl⟩

/-- In `add(NULL, 5)` the first formal goes, and the second takes its place. -/
theorem null_removes_formal : ¬ ∀ (eval : SEXP → Except Failure SEXP) (fName : Text)
    (formals : Arguments) (values : List (Text × SEXP)),
    Accepted (formals.map Prod.fst) values →
      boundArguments eval fName formals values = .ok (rMatch formals values) := by
  intro h
  have haccepted : Accepted (addTask.formals.map Prod.fst)
      [(([] : Text), SEXP.nil), ([], .atom (.real [0x4014000000000000#64]) [])] :=
    { distinct := by decide
      named := by decide
      known := by decide
      once := by simp
      room := by decide }
  have hbound := h .ok "add".toList addTask.formals _ haccepted
  have hnames := congrArg (fun r => r.toOption.map fun args => args.map Prod.fst) hbound
  revert hnames
  decide

end RCompss.Submission
