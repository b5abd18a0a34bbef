import RCompss.Submission.DecoratedTask

/-! The name under which a decorated function is registered and called: what `constraint`
stores, and what `task` makes of it. `Code` stands for the bodies of R functions. -/
namespace RCompss.Submission
open RCompss.Library RCompss.Payload

variable {Code : Type}

/-- A function with the two attributes that `constraint` sets. -/
structure RFunction (Code : Type) where
  formals : Arguments
  body : Code
  constraints : Constraints
  originalFunctionName : Option Text

inductive Bound (Code : Type) where
  | function (f : RFunction Code)
  | other

/-- The bindings of an R environment, in the order of `ls`. -/
structure Environment (Code : Type) where
  bindings : List (Text × Bound Code)
  nodup : (bindings.map Prod.fst).Nodup

def Environment.get (E : Environment Code) (name : Text) : Option (Bound Code) :=
  E.bindings.lookup name

/-- `grepl("_constrained$", name)`. -/
def isConstrainedName (name : Text) : Bool := "_constrained".toList.isSuffixOf name

/-- Names that are taken for a missing one. -/
def reserved : List Text := ["", "f", "structure"].map String.toList

/-- One `constraint` call: its first argument as `deparse` writes the first line of it, and
what it is given. -/
structure ConstraintCall where
  written : Text
  args : List (Text × ConstraintArg)

namespace ConstraintCall

/-- Something other than `NULL` is given. -/
def constrains (c : ConstraintCall) : Bool := c.args.any fun arg => (storedValue arg.2).isSome

/-- `constraint` takes the text for the function's name. -/
def acceptable (c : ConstraintCall) : Bool :=
  !reserved.contains c.written && c.written.head? != some '(' && !isConstrainedName c.written

end ConstraintCall

/-- `constraint`. -/
def RFunction.constrain (f : RFunction Code) (c : ConstraintCall) : RFunction Code :=
  if c.constrains = false then f
  else if c.acceptable then
    { f with
      constraints := constraint f.constraints c.args
      originalFunctionName := some c.written }
  else { f with constraints := constraint f.constraints c.args }

/-- A chain of `constraint` calls, each on the result of the one before. -/
def RFunction.constrainAll (f : RFunction Code) (calls : List ConstraintCall) : RFunction Code :=
  calls.foldl RFunction.constrain f

/-- A stored name that `task` uses. -/
def usable (name : Text) : Bool := !reserved.contains name && !isConstrainedName name

/-- The first name in an environment of a function with the same body. -/
def searchBody [DecidableEq Code] (E : Environment Code) (body : Code) : Option Text :=
  (E.bindings.find? fun b =>
    match b.2 with
    | .function g => decide (g.body = body) && !isConstrainedName b.1
    | .other => false).map Prod.fst

/-- The part of `task_wrapper_impl` that finds the name. `closure` is `environment(f)`, and
`written` the first line that `deparse` gives of the argument; what `match.call` gives of an
argument that `deparse` writes as one of the reserved names is that name. -/
def extractName [DecidableEq Code] (closure : Option (Environment Code)) (written : Text)
    (f : RFunction Code) : Except Failure Text :=
  match f.originalFunctionName.filter usable with
  | some name => .ok name
  | none =>
      match ((closure.bind fun E => searchBody E f.body).filter fun name =>
        !reserved.contains name) with
      | some name => .ok name
      | none =>
          if reserved.contains written then
            .error (.raised ("Could not extract function name. Please pass the function as a " ++
              "symbol, e.g., task(add, ...) instead of task(function(...), ...)").toList)
          else .ok written

/-- What else a `task` call is given, and what it finds in the session. -/
structure TaskSetup where
  /-- `ls(globalenv())`. -/
  globals : List Text
  /-- `RCOMPSs_SERIALIZATION`. -/
  env : Option RString
  filename : Text
  returnValue : Bool
  returnType : Text
  serMethod : Option (List CharSXP)
  infoOnly : Bool

theorem cpp_noNul : (0 : UInt8) ∉ [99, 112, 112] := by decide

theorem cpp_short : [(99 : UInt8), 112, 112].length < 2 ^ 31 := by decide

def cppMethod : RString := ⟨[99, 112, 112], cpp_noNul, cpp_short⟩

/-- The methods of a call that gives none. -/
def defaultMethods (env : Option RString) : List CharSXP :=
  let method := (env.filter fun m =>
    decide (lower m.text ∈ ["cpp".toList, "qs".toList, "rmvl".toList])).getD cppMethod
  [some method, some method]

/-- `task`. -/
def task [DecidableEq Code] (s : TaskSetup) (closure : Option (Environment Code))
    (written : Text) (f : RFunction Code) : Except Failure DecoratedTask := do
  let fName ← extractName closure written f
  if "MASTER_WORKING_DIR".toList ∉ s.globals then
    throw (.raised "MASTER_WORKING_DIR NOT FOUND!".toList)
  return {
    fName := fName
    formals := f.formals
    constraints := f.constraints
    filename := s.filename
    returnValue := s.returnValue
    returnType := s.returnType
    serMethod := s.serMethod.getD (defaultMethods s.env)
    infoOnly := s.infoOnly }

/-- The name is bound to a function with the same formals and the same body. -/
def Denotes (E : Environment Code) (name : Text) (f : RFunction Code) : Prop :=
  ∃ g, E.get name = some (.function g) ∧ g.formals = f.formals ∧ g.body = f.body

/-- The first argument of the innermost call, as it is written. -/
def innermost (calls : List ConstraintCall) (written : Text) : Text :=
  match calls with
  | [] => written
  | c :: _ => c.written

/-- However `task` is called on the decorated function, the name it takes is one of `f`. -/
def NamedRightly [DecidableEq Code] (E : Environment Code) (closure : Option (Environment Code))
    (f : RFunction Code) (calls : List ConstraintCall) (written : Text) : Prop :=
  ∀ s t, task s closure written (f.constrainAll calls) = .ok t → Denotes E t.fName f

/-- The last call of the chain that stores a name. -/
def lastNaming (calls : List ConstraintCall) : Option ConstraintCall :=
  (calls.filter fun c => c.constrains && c.acceptable).getLast?

/-- The binding is of a function with this body, under a name that does not end in
`_constrained`. -/
def HasBody (body : Code) (b : Text × Bound Code) : Prop :=
  isConstrainedName b.1 = false ∧ ∃ g, b.2 = .function g ∧ g.body = body

/-- The first binding in the environment of a function with this body is that of the name. -/
def FirstTwin (F : Environment Code) (body : Code) (name : Text) : Prop :=
  ∃ front bound rest, F.bindings = front ++ (name, bound) :: rest ∧
    HasBody body (name, bound) ∧ ∀ b ∈ front, ¬ HasBody body b

/-- The texts and names that may be taken for that of `f` are names of it: the last argument
written in a `constraint` call that stores one; without such a call the name that `f` came
with; without that the first name in its own environment bound to a function with its body; and
without any the argument written in the `task` call. -/
structure NamesItself (E : Environment Code) (closure : Option (Environment Code))
    (f : RFunction Code) (calls : List ConstraintCall) (written : Text) : Prop where
  constrained : ∀ c, lastNaming calls = some c → Denotes E c.written f
  stored : lastNaming calls = none → ∀ name, f.originalFunctionName = some name →
    usable name = true → Denotes E name f
  twin : lastNaming calls = none → (∀ name, f.originalFunctionName = some name →
    usable name = false) → ∀ F name, closure = some F → FirstTwin F f.body name →
      name ∉ reserved → Denotes E name f
  handed : lastNaming calls = none → (∀ name, f.originalFunctionName = some name →
    usable name = false) → (∀ F name, closure = some F → FirstTwin F f.body name →
      name ∈ reserved) → written ∉ reserved → Denotes E written f

section
variable {f : RFunction Code}

@[simp] theorem constrain_formals (c : ConstraintCall) : (f.constrain c).formals = f.formals := by
  unfold RFunction.constrain
  split_ifs <;> rfl

@[simp] theorem constrain_body (c : ConstraintCall) : (f.constrain c).body = f.body := by
  unfold RFunction.constrain
  split_ifs <;> rfl

theorem constrain_name (c : ConstraintCall) : (f.constrain c).originalFunctionName =
    if c.constrains && c.acceptable then some c.written else f.originalFunctionName := by
  unfold RFunction.constrain
  cases c.constrains <;> cases c.acceptable <;> rfl

/-- A chain changes neither formals nor body. -/
theorem constrainAll_same (calls : List ConstraintCall) :
    (f.constrainAll calls).formals = f.formals ∧ (f.constrainAll calls).body = f.body := by
  induction calls generalizing f with
  | nil => exact ⟨rfl, rfl⟩
  | cons c calls ih =>
    obtain ⟨hformals, hbody⟩ := ih (f := f.constrain c)
    constructor
    · exact hformals.trans (constrain_formals c)
    · exact hbody.trans (constrain_body c)

/-- The name a chain leaves is that of its last call which stores one. -/
theorem constrainAll_name (calls : List ConstraintCall) :
    (f.constrainAll calls).originalFunctionName =
      match lastNaming calls with
      | some c => some c.written
      | none => f.originalFunctionName := by
  induction calls using List.reverseRecOn with
  | nil => rfl
  | append_singleton calls c ih =>
    have hstep : f.constrainAll (calls ++ [c]) = (f.constrainAll calls).constrain c := by
      simp [RFunction.constrainAll]
    rw [hstep, constrain_name, ih]
    unfold lastNaming
    rw [List.filter_append]
    cases hnames : c.constrains && c.acceptable
    · simp [hnames]
    · simp [hnames]

theorem usable_of_acceptable {c : ConstraintCall} (h : c.acceptable = true) :
    usable c.written = true := by
  simp only [ConstraintCall.acceptable, usable, Bool.and_eq_true] at h ⊢
  exact ⟨h.1.1, h.2⟩

theorem filter_usable_eq_none
    (hstored : ∀ n, f.originalFunctionName = some n → usable n = false) :
    f.originalFunctionName.filter usable = none := by
  rw [Option.filter_eq_none_iff]
  intro n hn
  simp [hstored n hn]

theorem acceptable_of_lastNaming {calls : List ConstraintCall} {c : ConstraintCall}
    (h : lastNaming calls = some c) : c.acceptable = true := by
  have hmem := List.mem_of_getLast? h
  have hboth := (List.mem_filter.mp hmem).2
  exact (Bool.and_eq_true_iff.mp hboth).2

end

section
variable [DecidableEq Code] {E : Environment Code} {closure : Option (Environment Code)}
  {f : RFunction Code} {calls : List ConstraintCall} {written : Text}

/-- The search finds the first binding with the body. -/
theorem searchBody_eq_some {F : Environment Code} {body : Code} {name : Text} :
    searchBody F body = some name ↔ FirstTwin F body name := by
  let matching : Text × Bound Code → Bool := fun b =>
    match b.2 with
    | .function g => decide (g.body = body) && !isConstrainedName b.1
    | .other => false
  have hmatching (b : Text × Bound Code) : matching b = true ↔ HasBody body b := by
    obtain ⟨name, g | _⟩ := b
    · simp [matching, HasBody, and_comm]
    · simp [matching, HasBody]
  have hsearch : searchBody F body = (F.bindings.find? matching).map Prod.fst := rfl
  rw [hsearch, Option.map_eq_some_iff]
  simp only [List.find?_eq_some_iff_append, hmatching, Bool.not_eq_true',
    ← Bool.not_eq_true, FirstTwin]
  constructor
  · rintro ⟨⟨name, bound⟩, ⟨hbody, front, rest, hbindings, hfront⟩, rfl⟩
    exact ⟨front, bound, rest, hbindings, hbody, hfront⟩
  · rintro ⟨front, bound, rest, hbindings, hbody, hfront⟩
    exact ⟨(name, bound), ⟨hbody, front, rest, hbindings, hfront⟩, rfl⟩

/-- A started session in which every call of `task` gets past the name. -/
def startedSetup : TaskSetup where
  globals := ["MASTER_WORKING_DIR".toList]
  env := none
  filename := "add.R".toList
  returnValue := true
  returnType := "list".toList
  serMethod := none
  infoOnly := false

theorem task_name {s : TaskSetup} {g : RFunction Code} {t : DecoratedTask}
    (h : task s closure written g = .ok t) : extractName closure written g = .ok t.fName := by
  unfold task at h
  obtain ⟨name, hname, h⟩ := except_bind_eq_ok.mp h
  split at h
  · cases h
  · cases h
    exact hname

theorem task_started {g : RFunction Code} {name : Text}
    (h : extractName closure written g = .ok name) :
    ∃ t, task startedSetup closure written g = .ok t ∧ t.fName = name := by
  unfold task
  rw [h]
  exact ⟨_, rfl, rfl⟩

/-- The name is all that matters of a call of `task`. -/
theorem namedRightly_iff_name : NamedRightly E closure f calls written ↔
    ∀ name, extractName closure written (f.constrainAll calls) = .ok name → Denotes E name f := by
  constructor
  · intro h name hname
    obtain ⟨t, ht, hfName⟩ := task_started hname
    rw [← hfName]
    exact h startedSetup t ht
  · intro h s t ht
    exact h t.fName (task_name ht)

/-- The stored name is taken when it can be used. -/
theorem extractName_stored {g : RFunction Code} {name : Text}
    (h : g.originalFunctionName = some name) (husable : usable name = true) :
    extractName closure written g = .ok name := by
  unfold extractName
  rw [h, Option.filter_some_pos husable]

/-- Without one the name found in the environment, unless it is reserved. -/
theorem extractName_twin {g : RFunction Code} {F : Environment Code} {name : Text}
    (hstored : ∀ n, g.originalFunctionName = some n → usable n = false)
    (hsearch : searchBody F g.body = some name) (hname : name ∉ reserved) :
    extractName (some F) written g = .ok name := by
  have hfound : (some name).filter (fun name => !reserved.contains name) = some name := by
    simp [hname]
  unfold extractName
  rw [filter_usable_eq_none hstored, Option.bind_some, hsearch]
  simp only [hfound]

/-- Without that too the argument as it is written, unless that is reserved. -/
theorem extractName_written {g : RFunction Code}
    (hstored : ∀ n, g.originalFunctionName = some n → usable n = false)
    (hsearch : ∀ F n, closure = some F → searchBody F g.body = some n → n ∈ reserved) :
    extractName closure written g =
      if written ∈ reserved then
        .error (.raised ("Could not extract function name. Please pass the function as a " ++
          "symbol, e.g., task(add, ...) instead of task(function(...), ...)").toList)
      else .ok written := by
  have hfound : ((closure.bind fun E => searchBody E g.body).filter fun name =>
      !reserved.contains name) = none := by
    rw [Option.filter_eq_none_iff]
    intro n hn
    obtain ⟨F, hF, hn⟩ := Option.bind_eq_some_iff.mp hn
    simp [hsearch F n hF hn]
  unfold extractName
  rw [filter_usable_eq_none hstored]
  simp only [hfound, List.contains_iff_mem]

/-- Where the name of a function comes from: it is stored with it, or its body is found under
it, or it is what was written. -/
inductive Takes (closure : Option (Environment Code)) (written : Text) (g : RFunction Code) :
    Text → Prop where
  | stored {name : Text} (hname : g.originalFunctionName = some name)
      (husable : usable name = true) : Takes closure written g name
  | twin {F : Environment Code} {name : Text}
      (hstored : ∀ n, g.originalFunctionName = some n → usable n = false)
      (hclosure : closure = some F) (hsearch : searchBody F g.body = some name)
      (hfree : name ∉ reserved) : Takes closure written g name
  | written (hstored : ∀ n, g.originalFunctionName = some n → usable n = false)
      (hsearch : ∀ F n, closure = some F → searchBody F g.body = some n → n ∈ reserved)
      (hfree : written ∉ reserved) : Takes closure written g written

theorem extractName_eq_ok {g : RFunction Code} {name : Text} :
    extractName closure written g = .ok name ↔ Takes closure written g name := by
  constructor
  · intro h
    by_cases hstored : ∀ n, g.originalFunctionName = some n → usable n = false
    · by_cases hsearch : ∀ F n, closure = some F → searchBody F g.body = some n → n ∈ reserved
      · rw [extractName_written hstored hsearch] at h
        split at h
        · cases h
        next hfree =>
          cases h
          exact .written hstored hsearch hfree
      · push Not at hsearch
        obtain ⟨F, n, rfl, hn, hfree⟩ := hsearch
        rw [extractName_twin hstored hn hfree] at h
        cases h
        exact .twin hstored rfl hn hfree
    · push Not at hstored
      obtain ⟨n, hn, husable⟩ := hstored
      have husable : usable n = true := by simpa using husable
      rw [extractName_stored hn husable] at h
      cases h
      exact .stored hn husable
  · intro h
    cases h with
    | stored hname husable => exact extractName_stored hname husable
    | twin hstored hclosure hsearch hfree =>
      rw [hclosure]
      exact extractName_twin hstored hsearch hfree
    | written hstored hsearch hfree => rw [extractName_written hstored hsearch, if_neg hfree]

/-- A decorated function is registered and called under a name of its own exactly when every
text and name that `task` may take for it is one. -/
theorem namedRightly_iff : NamedRightly E closure f calls written ↔
    NamesItself E closure f calls written := by
  have hname := constrainAll_name (f := f) calls
  obtain ⟨_, hbody⟩ := constrainAll_same (f := f) calls
  simp only [namedRightly_iff_name, extractName_eq_ok]
  constructor
  · intro h
    constructor
    case constrained =>
      intro c hc
      rw [hc] at hname
      exact h _ (.stored hname (usable_of_acceptable (acceptable_of_lastNaming hc)))
    case stored =>
      intro hlast name hf husable
      rw [hlast, hf] at hname
      exact h _ (.stored hname husable)
    case twin =>
      intro hlast hstored F name hclosure hsearch hfree
      rw [hlast] at hname
      rw [← hbody] at hsearch
      exact h _ (.twin (by rwa [hname]) hclosure (searchBody_eq_some.mpr hsearch) hfree)
    case handed =>
      intro hlast hstored hsearch hfree
      rw [hlast] at hname
      rw [← hbody] at hsearch
      exact h _ (.written (by rwa [hname])
        (fun F n hF hn => hsearch F n hF (searchBody_eq_some.mp hn)) hfree)
  · intro h name htakes
    cases hlast : lastNaming calls with
    | some c =>
      rw [hlast] at hname
      have husable := usable_of_acceptable (acceptable_of_lastNaming hlast)
      have htaken := extractName_eq_ok.mpr htakes
      rw [extractName_stored hname husable] at htaken
      cases htaken
      exact h.constrained c hlast
    | none =>
      rw [hlast] at hname
      cases htakes with
      | stored hstored husable => exact h.stored hlast name (hname.symm.trans hstored) husable
      | twin hstored hclosure hsearch hfree =>
        rw [hname] at hstored
        rw [hbody] at hsearch
        exact h.twin hlast hstored _ name hclosure (searchBody_eq_some.mp hsearch) hfree
      | written hstored hsearch hfree =>
        rw [hname] at hstored
        rw [hbody] at hsearch
        exact h.handed hlast hstored
          (fun F n hF hn => hsearch F n hF (searchBody_eq_some.mpr hn)) hfree

end

/-- `function(a, b) a - b`, with 0 for the body. -/
def minusFunction : RFunction ℕ :=
  ⟨[("a".toList, missingArg), ("b".toList, missingArg)], 0, [], none⟩

/-- `function(b, a) a - b`. -/
def restFunction : RFunction ℕ :=
  ⟨[("b".toList, missingArg), ("a".toList, missingArg)], 0, [], none⟩

/-- Both in one environment. -/
def twinEnvironment : Environment ℕ where
  bindings := [("minus".toList, .function minusFunction), ("rest".toList, .function restFunction)]
  nodup := by decide

/-- `task(rest)` registers `minus`, and a name of source text comes out of
`task(constraint(constraint(minus, ..), ..))`. -/
theorem twins_and_chains_misnamed :
    ¬ (∀ (f : RFunction ℕ) (calls : List ConstraintCall) (written : Text),
      twinEnvironment.get (innermost calls written) = some (.function f) →
        NamedRightly twinEnvironment (some twinEnvironment) f calls written) ∧
    ∃ t, task startedSetup (some twinEnvironment) "constrained".toList
        (minusFunction.constrainAll
          [⟨"minus".toList, [("is_local".toList, .logical [some true])]⟩,
            ⟨"constraint(minus, is_local = TRUE)".toList,
              [("memory_size".toList, .character [some "8".toList])]⟩]) = .ok t ∧
      t.fName = "constraint(minus, is_local = TRUE)".toList := by
  constructor
  · intro h
    have hnamed := h restFunction [] "rest".toList rfl startedSetup _ rfl
    obtain ⟨g, hg, hformals, _⟩ := hnamed
    cases hg
    have hnames := congrArg (List.map Prod.fst) hformals
    revert hnames
    decide
  · exact ⟨_, rfl, rfl⟩

end RCompss.Submission
