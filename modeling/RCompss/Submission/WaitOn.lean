import RCompss.Library.Exec
import RCompss.Submission.TypeChecker

/-! `rcompss_wait_on`: a future object becomes the object in its file, and a list is rebuilt
element by element. -/
namespace RCompss.Submission
open RCompss.Library

/-- What waiting asks of R and of the runtime. -/
structure Awaiting where
  /-- What R makes of an object other than a vector that is the argument of a call: a symbol, a
  call or a promise has a value of its own, or raises. -/
  eval : Opaque → List (Symbol × SEXP) → Except Failure SEXP
  /-- `as.list` and `as.character` of what is no list or no character vector. -/
  asList : SEXP → Except Failure (List SEXP)
  asCharacter : SEXP → Except Failure (List CharSXP)
  /-- The path in a future object. -/
  outputfile : SEXP → Except Failure Text
  getFile : Text → Except Failure Unit
  unserialize : Text → Except Failure SEXP

/-- Runs that keep the warnings they give. -/
abbrev WaitM := Exec (List Text) Failure

def warning (message : Text) : WaitM Unit := modify (· ++ [message])

/-- The class R gives a future object. -/
def IsFutureObject (v : SEXP) : Prop := rClass v = ["future_object".toList]

instance (v : SEXP) : Decidable (IsFutureObject v) := inferInstanceAs (Decidable (_ = _))

namespace Awaiting
variable (r : Awaiting)

/-- An argument of a call that R makes. -/
def evaluated : SEXP → Except Failure SEXP
  | .other object attrib => r.eval object attrib
  | v => .ok v

/-- What `class`, `typeof` and `length` answer when they are called on a value. -/
def inspected (v : SEXP) : Except Failure Inspection := do
  let w ← r.evaluated v
  return ⟨rClass w, typeName w, w.length⟩

def list : SEXP → Except Failure (List SEXP)
  | .vec xs _ => .ok xs
  | v => r.asList v

def character : SEXP → Except Failure (List CharSXP)
  | .atom (.str ts) _ => .ok ts
  | v => r.asCharacter v

/-- `Get_File` and `rcompss_unserialize`. -/
def fetchFile (path : Text) : Except Failure SEXP := do
  r.getFile path
  r.unserialize path

/-- The object that a future object stands for. -/
def fetched (fo : SEXP) : Except Failure SEXP := do
  let outputfile ← r.outputfile fo
  r.fetchFile outputfile

/-- One element of a list. -/
def waitElement (obj : SEXP) : Except Failure SEXP := do
  let i ← r.inspected obj
  if rcompssIsFutureObject i then
    r.fetched obj
  else
    return obj

/-- The loop over a list. -/
def waitElements (objList : List SEXP) : Except Failure (List SEXP) :=
  objList.mapM r.waitElement

/-- One path; what is not there is given back as it was. -/
def waitPath (path : CharSXP) : WaitM SEXP :=
  tryCatch (liftM (r.fetchFile (stringOf path).text)) fun _ => do
    warning ("File ".toList ++ (stringOf path).text ++
      " does not exist. Returning the original character.".toList)
    return .atom (.str [some (stringOf path)]) []

end Awaiting

def waitFailure : Failure → Failure
  | .raised message => .raised ("Failed to wait on future object: ".toList ++ message)
  | .undefined => .undefined

/-- `rcompss_wait_on`. -/
def rcompssWaitOn (r : Awaiting) (futureObj : SEXP) : WaitM SEXP :=
  tryCatch (do
    let i ← r.inspected futureObj
    if rcompssIsFutureObject i then
      r.fetched futureObj
    else if rcompssIsList i then
      let objList ← r.list futureObj
      let returnList ← r.waitElements objList
      return .vec returnList []
    else if rcompssIsFutureObjectPath i then
      let paths ← r.character futureObj
      let returnList ← paths.mapM r.waitPath
      return .vec returnList []
    else
      warning "Unknown future object type. Returning as is.".toList
      return futureObj) fun e => throw (waitFailure e)

namespace Awaiting
variable {r : Awaiting} {xs ys : List SEXP} {as : List (Symbol × SEXP)} {x y : SEXP}

/-- Each future object in a list names a file that can be fetched and read. -/
def Readable (r : Awaiting) (xs : List SEXP) : Prop :=
  ∀ x ∈ xs, IsFutureObject x → ∃ y, r.fetched x = .ok y

/-- What is to become of an element. -/
def Becomes (r : Awaiting) (x y : SEXP) : Prop :=
  if IsFutureObject x then r.fetched x = .ok y else y = x

/-- Waiting on `v` returns a list with its length and its names, and each element is what
becomes of the one in its place. -/
def PreservesShape (r : Awaiting) (v : SEXP) (warnings : List Text) : Prop :=
  ∃ (ys : List SEXP) (as : List (Symbol × SEXP)),
    (exec (rcompssWaitOn r v) warnings).1 = .ok (.vec ys as) ∧
    (SEXP.vec ys as).getAttrib R_NamesSymbol = v.getAttrib R_NamesSymbol ∧
    ys.length = v.length ∧
    ∀ (i : ℕ) (x y : SEXP), v.elements[i]? = some x → ys[i]? = some y → r.Becomes x y

/-- A call of `class` tells whether an element is a future object, unless the file of what it
takes for one holds the element itself. -/
def Told (r : Awaiting) (x : SEXP) : Prop :=
  ∃ y, r.evaluated x = .ok y ∧ ((IsFutureObject y ↔ IsFutureObject x) ∨ r.fetched x = .ok x)

theorem inspected_eq (hx : r.evaluated x = .ok y) :
    r.inspected x = .ok ⟨rClass y, typeName y, y.length⟩ := by
  unfold inspected
  rw [hx]
  rfl

theorem waitElement_eq_ok : r.waitElement x = .ok y ↔
    ∃ w, r.evaluated x = .ok w ∧ if IsFutureObject w then r.fetched x = .ok y else y = x := by
  cases hx : r.evaluated x with
  | error e =>
    have hraises : r.waitElement x = .error e := by
      unfold waitElement inspected
      rw [hx]
      rfl
    simp [hraises]
  | ok w =>
    unfold waitElement
    rw [inspected_eq hx]
    by_cases hw : IsFutureObject w
    · have htold : rcompssIsFutureObject ⟨rClass w, typeName w, w.length⟩ = true :=
        rcompssIsFutureObject_iff.mpr hw
      simp [Bind.bind, Except.bind, htold, hw]
    · have htold : ¬ rcompssIsFutureObject ⟨rClass w, typeName w, w.length⟩ = true :=
        fun h => hw (rcompssIsFutureObject_iff.mp h)
      simp [Bind.bind, Except.bind, Pure.pure, Except.pure, htold, hw, eq_comm]

/-- An element becomes what it is to become if and only if `class` tells what it is. -/
theorem becomes_iff (hread : IsFutureObject x → ∃ y, r.fetched x = .ok y) :
    (∃ y, r.waitElement x = .ok y ∧ r.Becomes x y) ↔ r.Told x := by
  simp only [waitElement_eq_ok, Becomes, Told]
  constructor
  · intro h
    obtain ⟨y, ⟨w, hw, hy⟩, hbecomes⟩ := h
    refine ⟨w, hw, ?_⟩
    by_cases hwf : IsFutureObject w <;> by_cases hxf : IsFutureObject x
    · exact .inl (iff_of_true hwf hxf)
    · rw [if_pos hwf] at hy
      rw [if_neg hxf] at hbecomes
      exact .inr (hbecomes ▸ hy)
    · rw [if_neg hwf] at hy
      rw [if_pos hxf] at hbecomes
      exact .inr (hy ▸ hbecomes)
    · exact .inl (iff_of_false hwf hxf)
  · intro h
    obtain ⟨w, hw, hsame | hself⟩ := h
    · by_cases hxf : IsFutureObject x
      · obtain ⟨y, hy⟩ := hread hxf
        exact ⟨y, ⟨w, hw, by rwa [if_pos (hsame.mpr hxf)]⟩, by rwa [if_pos hxf]⟩
      · exact ⟨x, ⟨w, hw, by rw [if_neg fun h => hxf (hsame.mp h)]⟩, by rw [if_neg hxf]⟩
    · refine ⟨x, ⟨w, hw, ?_⟩, ?_⟩
      · split
        · exact hself
        · rfl
      · split
        · exact hself
        · rfl

/-- A list is rebuilt from its elements alone. -/
theorem waitOn_list (hlist : rClass (.vec xs as) = ["list".toList]) (warnings : List Text) :
    (exec (rcompssWaitOn r (.vec xs as)) warnings).1 =
      match r.waitElements xs with
      | .ok ys => .ok (.vec ys [])
      | .error e => .error (waitFailure e) := by
  have hinspected : r.inspected (.vec xs as) =
      .ok ⟨rClass (.vec xs as), typeName (.vec xs as), (SEXP.vec xs as).length⟩ :=
    inspected_eq rfl
  have hfuture : ¬ rcompssIsFutureObject
      ⟨rClass (.vec xs as), typeName (.vec xs as), (SEXP.vec xs as).length⟩ = true := by
    rw [rcompssIsFutureObject_iff, hlist]
    exact (by decide : ["list".toList] ≠ ["future_object".toList])
  have hislist : rcompssIsList
      ⟨rClass (.vec xs as), typeName (.vec xs as), (SEXP.vec xs as).length⟩ = true :=
    rcompssIsList_iff.mpr hlist
  unfold rcompssWaitOn
  rw [exec_tryCatch, exec_bind, exec_lift, hinspected]
  simp only [if_neg hfuture, if_pos hislist, exec_bind, exec_lift, list]
  cases r.waitElements xs with
  | ok ys => rfl
  | error e => rfl

theorem preservesShape_list (hlist : rClass (.vec xs as) = ["list".toList])
    (warnings : List Text) : r.PreservesShape (.vec xs as) warnings ↔
      (SEXP.vec xs as).getAttrib R_NamesSymbol = .nil ∧
      ∃ ys, r.waitElements xs = .ok ys ∧ List.Forall₂ r.Becomes xs ys := by
  unfold PreservesShape
  rw [waitOn_list hlist]
  constructor
  · intro h
    obtain ⟨ys, bs, hrun, hnames, hlen, helements⟩ := h
    cases hwait : r.waitElements xs with
    | error e =>
      rw [hwait] at hrun
      cases hrun
    | ok zs =>
      rw [hwait] at hrun
      cases hrun
      refine ⟨hnames.symm, ys, rfl, ?_⟩
      apply List.forall₂_iff_get.mpr
      refine ⟨hlen.symm, fun i hx hy => helements i _ _ ?_ ?_⟩
      · exact List.getElem?_eq_getElem hx
      · exact List.getElem?_eq_getElem hy
  · intro h
    obtain ⟨hnames, ys, hwait, hbecome⟩ := h
    rw [hwait]
    refine ⟨ys, [], rfl, hnames.symm, hbecome.length_eq.symm, fun i x y hx hy => ?_⟩
    obtain ⟨hi, hx⟩ := List.getElem?_eq_some_iff.mp hx
    obtain ⟨hj, hy⟩ := List.getElem?_eq_some_iff.mp hy
    subst hx hy
    exact hbecome.get hi hj

/-- The loop makes of the elements what they are to become if and only if each is told. -/
theorem waitElements_become (hread : r.Readable xs) :
    (∃ ys, r.waitElements xs = .ok ys ∧ List.Forall₂ r.Becomes xs ys) ↔ ∀ x ∈ xs, r.Told x := by
  simp only [waitElements, mapM_eq_ok]
  induction xs with
  | nil => simp
  | cons x xs ih =>
    have htail : r.Readable xs := fun z hz => hread z (List.mem_cons_of_mem x hz)
    rw [List.forall_mem_cons, ← ih htail, ← becomes_iff (hread x List.mem_cons_self)]
    constructor
    · intro h
      obtain ⟨ys, hwait, hbecome⟩ := h
      cases hwait with
      | cons hy hys =>
        cases hbecome with
        | cons hx hxs => exact ⟨⟨_, hy, hx⟩, _, hys, hxs⟩
    · intro h
      obtain ⟨⟨y, hy, hx⟩, ys, hys, hxs⟩ := h
      exact ⟨y :: ys, .cons hy hys, .cons hx hxs⟩

/-- Waiting on a list of readable futures and other values keeps its shape if and only if the
list has no names and `class` tells of each element what it is. -/
theorem wait_on_preserves_shape_iff (r : Awaiting) (xs : List SEXP) (as : List (Symbol × SEXP))
    (warnings : List Text) (hlist : rClass (.vec xs as) = ["list".toList])
    (hread : r.Readable xs) : r.PreservesShape (.vec xs as) warnings ↔
      (SEXP.vec xs as).getAttrib R_NamesSymbol = .nil ∧ ∀ x ∈ xs, r.Told x := by
  rw [preservesShape_list hlist, waitElements_become hread]

end Awaiting

/-- `structure(list(outputfile = ..), class = "future_object")`, as far as its class goes. -/
def waitedFuture : SEXP :=
  .vec [] [(R_ClassSymbol, .atom (.str [some ⟨[102, 117, 116, 117, 114, 101, 95, 111, 98, 106,
    101, 99, 116], by decide, by decide⟩]) [])]

/-- Objects that are their own values, and a file with a `NULL` behind every future. -/
def plainAwaiting : Awaiting where
  eval object attrib := .ok (.other object attrib)
  asList _ := .ok []
  asCharacter _ := .ok []
  outputfile _ := .ok "cpp-1".toList
  getFile _ := .ok ()
  unserialize _ := .ok .nil

/-- `list(NULL, fo, 1)` keeps its shape. -/
theorem unnamed_list_keeps_shape :
    plainAwaiting.PreservesShape (.vec [.nil, waitedFuture, .atom (.real [0]) []] []) [] := by
  apply (Awaiting.wait_on_preserves_shape_iff plainAwaiting
    [.nil, waitedFuture, .atom (.real [0]) []] [] [] rfl fun x _ _ => ⟨.nil, rfl⟩).mpr
  refine ⟨rfl, fun x hx => ?_⟩
  have hself : plainAwaiting.evaluated x = .ok x := by cases x <;> rfl
  exact ⟨x, hself, .inl Iff.rfl⟩

/-- `list(y = NULL)`. -/
def namedList : SEXP :=
  .vec [.nil] [(R_NamesSymbol, .atom (.str [some ⟨[121], by decide, by decide⟩]) [])]

/-- A list of no futures at all loses its name. -/
theorem named_list_loses_names : ¬ ∀ (r : Awaiting) (xs : List SEXP) (as : List (Symbol × SEXP))
    (warnings : List Text), rClass (.vec xs as) = ["list".toList] → r.Readable xs →
      r.PreservesShape (.vec xs as) warnings := by
  intro h
  have hread : plainAwaiting.Readable [.nil] := fun x _ _ => ⟨.nil, rfl⟩
  obtain ⟨ys, as, hrun, hnames, -⟩ :=
    h plainAwaiting namedList.elements namedList.attrib [] rfl hread
  rw [Awaiting.waitOn_list rfl] at hrun
  cases hrun
  cases hnames

end RCompss.Submission
