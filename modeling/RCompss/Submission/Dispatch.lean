import RCompss.RValue.Attrib
import RCompss.Submission.DecoratedTask

/-! How an argument of a task travels: by value, or in a file whose path stands in its
place. -/
namespace RCompss.Submission
open RCompss.Library RCompss.Payload

/-- The classes of the basic types. -/
def basicClasses : List Text := ["integer", "numeric", "character"].map String.toList

/-- The class R gives to an atomic vector that has none. -/
def implicitClass : Atomic → Text
  | .lgl _ => "logical".toList
  | .int _ => "integer".toList
  | .real _ => "numeric".toList
  | .str _ => "character".toList

/-- The type code of what can be passed by value. -/
def storageCode : Atomic → Option ℕ
  | .lgl _ => none
  | .int _ => some 4
  | .real _ => some 7
  | .str _ => some 8

/-- What R evaluates where it is the argument of a call: a symbol, a promise, a call or byte
code. -/
def isEvaluated : SEXP → Bool
  | .other o _ => o.type ∈ [.SYMSXP, .PROMSXP, .LANGSXP, .BCODESXP]
  | _ => false

/-- What R answers about a value without attributes: of an atomic vector the implicit class,
the storage type and the number of elements, and no basic class of any other value that it does
not evaluate. What `x` is evaluated to may look like anything. -/
structure AnswersPlain (inspect : Inspect) : Prop where
  atomic : ∀ d i, inspect (.atom d []) = some i →
    i = ⟨[implicitClass d], typeName (.atom d []), d.length⟩
  other : ∀ v i, v.attrib = [] → isEvaluated v = false → (∀ d as, v ≠ .atom d as) →
    inspect v = some i → ∀ c ∈ i.classes, c ∉ basicClasses

/-- Of `x`, or of what it is evaluated to, the class is a single basic one and the length is
one. -/
def LooksScalar (inspect : Inspect) (x : SEXP) : Prop :=
  ∃ i c, inspect x = some i ∧ i.classes = [c] ∧ c ∈ basicClasses ∧ i.length = 1

/-- Otherwise, the class is `future_object` and nothing else. -/
def LooksFuture (inspect : Inspect) (x : SEXP) : Prop :=
  ¬ LooksScalar inspect x ∧ ∃ i, inspect x = some i ∧ i.classes = ["future_object".toList]

/-- The argument is replaced by the path of its file, unless writing it raises. -/
def Serialized (r : Surroundings) (method : Text) (i : ℕ) (arg : Text × SEXP) : Prop :=
  let path := buildArgumentFilename r.masterWorkingDir method arg.1 i (r.uid i).text
  (r.serialize arg.2 path method = .ok () ∧ processedValue r method i arg = .ok (.path path)) ∨
    ∃ e, r.serialize arg.2 path method = .error e ∧ processedValue r method i arg = .error e

/-- The argument is replaced by the file of the task that it is the future of. -/
def Awaited (r : Surroundings) (method : Text) (i : ℕ) (arg : Text × SEXP) : Prop :=
  ∃ path, r.outputfile arg.2 = .ok path ∧ processedValue r method i arg = .ok (.path path)

/-- Passed by value `x` is a scalar without attributes, of the type that the code stands for. -/
def ByValue (r : Surroundings) (x : SEXP) : Prop :=
  ∃ d, x = .atom d [] ∧ d.length = 1 ∧ (processSingleArgument r.inspect x).2 = [] ∧
    some (processSingleArgument r.inspect x).1 = storageCode d

/-- Passed in a file `x` has the file type, and under every name, in every place and with
every method a path stands in its place. -/
def InFile (r : Surroundings) (x : SEXP) : Prop :=
  (processSingleArgument r.inspect x).1 = 10 ∧ (processSingleArgument r.inspect x).2 ≠ [] ∧
    ∀ method i name, if (processSingleArgument r.inspect x).2 = "future_object".toList
      then Awaited r method i (name, x) else Serialized r method i (name, x)

/-- Nothing of `x` is lost on the way. -/
def Dispatched (r : Surroundings) (x : SEXP) : Prop := ByValue r x ∨ InFile r x

section
variable {inspect : Inspect} {x : SEXP}

/-- The three ways `processArgument` goes. -/
theorem processSingleArgument_scalar {i : Inspection} (hi : inspect x = some i)
    (h : LooksScalar inspect x) : processSingleArgument inspect x = (mapType i.rType, []) := by
  obtain ⟨j, c, hj, hclasses, hc, hlen⟩ := h
  cases hi.symm.trans hj
  have hbasic : c = "integer".toList ∨ c = "numeric".toList ∨ c = "character".toList := by
    simpa [basicClasses] using hc
  unfold processSingleArgument
  rw [hi]
  dsimp only
  rw [hclasses, hlen, processArgument, if_pos ⟨rfl, rfl, hbasic⟩]

theorem processSingleArgument_future (h : LooksFuture inspect x) :
    processSingleArgument inspect x = (10, "future_object".toList) := by
  obtain ⟨hno, i, hi, hclasses⟩ := h
  have hname : ¬ ("future_object".toList = "integer".toList ∨
      "future_object".toList = "numeric".toList ∨
      "future_object".toList = "character".toList) := by decide
  unfold processSingleArgument
  rw [hi]
  dsimp only
  rw [hclasses, processArgument, if_neg fun h => hname h.2.2, if_pos ⟨rfl, rfl⟩]

theorem processSingleArgument_object (hscalar : ¬ LooksScalar inspect x)
    (hfuture : ¬ LooksFuture inspect x) :
    processSingleArgument inspect x = (10, "object".toList) := by
  unfold processSingleArgument
  rcases hi : inspect x with _ | i
  · rfl
  have single {c : Text} (hlen : i.classes.length = 1) (hhead : i.classes.head?.getD [] = c) :
      i.classes = [c] := by
    obtain ⟨d, hd⟩ := List.length_eq_one_iff.mp hlen
    rw [hd] at hhead ⊢
    simpa using hhead
  have hnotScalar : ¬ (i.classes.length = 1 ∧ i.length = 1 ∧
      (i.classes.head?.getD [] = "integer".toList ∨ i.classes.head?.getD [] = "numeric".toList ∨
        i.classes.head?.getD [] = "character".toList)) := by
    intro h
    obtain ⟨hclasses, hlen, hbasic⟩ := h
    apply hscalar
    refine ⟨i, _, hi, single hclasses rfl, ?_, hlen⟩
    simpa [basicClasses] using hbasic
  have hnotFuture : ¬ (i.classes.length = 1 ∧
      i.classes.head?.getD [] = "future_object".toList) := by
    intro h
    exact hfuture ⟨hscalar, i, hi, single h.1 h.2⟩
  dsimp only
  rw [processArgument, if_neg hnotScalar, if_neg hnotFuture]

end

section
variable {r : Surroundings} {x : SEXP}

/-- A future is replaced by its file as soon as that can be read off it. -/
theorem awaited_iff (h : LooksFuture r.inspect x) (method : Text) (i : ℕ) (name : Text) :
    Awaited r method i (name, x) ↔ ∃ path, r.outputfile x = .ok path := by
  constructor
  · intro hawaited
    obtain ⟨path, hpath, _⟩ := hawaited
    exact ⟨path, hpath⟩
  · intro hread
    obtain ⟨path, hpath⟩ := hread
    refine ⟨path, hpath, ?_⟩
    unfold processedValue
    simp only [processSingleArgument_future h]
    rw [if_neg (by decide), if_pos (by decide), hpath]
    rfl

/-- Of the objects only symbols stay as they are. -/
theorem serialized_iff (hscalar : ¬ LooksScalar r.inspect x) (hfuture : ¬ LooksFuture r.inspect x)
    (method : Text) (i : ℕ) (name : Text) :
    Serialized r method i (name, x) ↔ isSymbol x = false := by
  have hvalue : processedValue r method i (name, x) =
      if isSymbol x then .ok (.value x) else do
        r.serialize x (buildArgumentFilename r.masterWorkingDir method name i (r.uid i).text)
          method
        return .path (buildArgumentFilename r.masterWorkingDir method name i (r.uid i).text) := by
    unfold processedValue
    simp only [processSingleArgument_object hscalar hfuture]
    rw [if_pos (by decide)]
    split <;> rfl
  unfold Serialized
  simp only [hvalue]
  cases hsymbol : isSymbol x
  · rw [if_neg Bool.false_ne_true]
    constructor
    · exact fun _ => rfl
    · intro _
      rcases hwrite : r.serialize x
        (buildArgumentFilename r.masterWorkingDir method name i (r.uid i).text) method with e | _
      · exact .inr ⟨e, rfl, rfl⟩
      · exact .inl ⟨rfl, rfl⟩
  · rw [if_pos rfl]
    constructor
    · intro h
      rcases h with ⟨_, h⟩ | ⟨_, _, h⟩ <;> cases h
    · exact fun h => by cases h

theorem inFile_scalar (h : LooksScalar r.inspect x) : ¬ InFile r x := by
  intro hfile
  obtain ⟨i, _, hi, _⟩ := id h
  apply hfile.2.1
  rw [processSingleArgument_scalar hi h]

/-- What looks like a scalar is one exactly when it has no attributes and is not evaluated. -/
theorem byValue_iff (hr : AnswersPlain r.inspect) (h : LooksScalar r.inspect x) :
    ByValue r x ↔ x.attrib = [] ∧ isEvaluated x = false := by
  have hscalar := h
  obtain ⟨i, c, hi, hclasses, hc, hlen⟩ := h
  constructor
  · intro hvalue
    obtain ⟨d, rfl, _⟩ := hvalue
    exact ⟨rfl, rfl⟩
  · rintro ⟨hattrib, hself⟩
    by_cases hatomic : ∀ d as, x ≠ .atom d as
    · exact absurd hc (hr.other x i hattrib hself hatomic hi c (by simp [hclasses]))
    · push Not at hatomic
      obtain ⟨d, as, rfl⟩ := hatomic
      have hnone : as = [] := hattrib
      subst hnone
      have hanswer := hr.atomic d i hi
      have hprocessed := processSingleArgument_scalar hi hscalar
      rw [hanswer] at hprocessed hclasses hlen
      have hclass : implicitClass d = c := by simpa using hclasses
      refine ⟨d, rfl, hlen, by rw [hprocessed], ?_⟩
      rw [hprocessed]
      rw [← hclass] at hc
      cases d with
      | lgl d =>
        have hlogical : "logical".toList ∉ basicClasses := by decide
        exact absurd hc hlogical
      | int d | real d | str d => rfl

/-- No argument is lost exactly when those that look like scalars have no attributes and are not
evaluated, futures name their file, and the others are no symbols. -/
theorem dispatched_iff (r : Surroundings) (hr : AnswersPlain r.inspect) (x : SEXP) :
    Dispatched r x ↔ (LooksScalar r.inspect x → x.attrib = [] ∧ isEvaluated x = false) ∧
      (LooksFuture r.inspect x → ∃ path, r.outputfile x = .ok path) ∧
      (¬ LooksScalar r.inspect x → ¬ LooksFuture r.inspect x → isSymbol x = false) := by
  by_cases hscalar : LooksScalar r.inspect x
  · have hfuture : ¬ LooksFuture r.inspect x := fun h => h.1 hscalar
    have hvalue := byValue_iff hr hscalar
    have hfile := inFile_scalar hscalar
    simp only [Dispatched, hfile, or_false, hvalue, hscalar, hfuture, forall_true_left,
      false_imp_iff, not_true_eq_false, and_true]
  · have hvalue (hcontent : (processSingleArgument r.inspect x).2 ≠ []) : ¬ ByValue r x :=
      fun ⟨_, _, _, h, _⟩ => hcontent h
    by_cases hfuture : LooksFuture r.inspect x
    · have hprocessed := processSingleArgument_future hfuture
      have hfile : InFile r x ↔ ∃ path, r.outputfile x = .ok path := by
        unfold InFile
        simp only [hprocessed, if_true, awaited_iff hfuture]
        simp
      rw [Dispatched, or_iff_right (hvalue (by rw [hprocessed]; decide)), hfile]
      simp [hscalar, hfuture]
    · have hprocessed := processSingleArgument_object hscalar hfuture
      have hfile : InFile r x ↔ isSymbol x = false := by
        have hname : "object".toList ≠ "future_object".toList := by decide
        unfold InFile
        simp only [hprocessed, if_neg hname, serialized_iff hscalar hfuture]
        simp
      rw [Dispatched, or_iff_right (hvalue (by rw [hprocessed]; decide)), hfile]
      simp [hscalar, hfuture]

/-- The class R gives to a value that has none and no dims; of the calls only a plain one. -/
def typeClass : SEXP → Text
  | .atom d _ => implicitClass d
  | .other ⟨.CLOSXP, _, _⟩ _ | .other ⟨.SPECIALSXP, _, _⟩ _ | .other ⟨.BUILTINSXP, _, _⟩ _ =>
      "function".toList
  | .other ⟨.SYMSXP, _, _⟩ _ => "name".toList
  | .other ⟨.LANGSXP, _, _⟩ _ => "call".toList
  | v => typeName v

/-- `class` without S3 methods: the attribute, or what dims and type imply. -/
def rClass (v : SEXP) : List Text :=
  match v.attribOf R_ClassSymbol with
  | .atom (.str (c :: cs)) _ => (c :: cs).map CharSXP.text
  | _ =>
      match (v.attribOf R_DimSymbol).extents with
      | [_, _] => ["matrix".toList, "array".toList]
      | _ :: _ => ["array".toList]
      | [] => [typeClass v]

/-- `class`, `typeof` and `length` as they are for values without methods of their own. What
is evaluated has the value that `eval` gives, or raises. -/
def rInspect (eval : SEXP → Option SEXP) : Inspect := fun v => do
  let w ← if isEvaluated v then eval v else some v
  return ⟨rClass w, typeName w, w.length⟩

theorem rInspect_answersPlain (eval : SEXP → Option SEXP) : AnswersPlain (rInspect eval) where
  atomic d i hi := by
    cases hi
    rfl
  other v i hattrib hself hatomic hi c hc := by
    unfold rInspect at hi
    rw [hself] at hi
    cases hi
    have hclass : rClass v = [typeClass v] := by
      have hnone (s : Symbol) : v.attribOf s = .nil := by
        rw [SEXP.attribOf, hattrib]
        rfl
      unfold rClass
      rw [hnone, hnone]
      rfl
    rw [hclass] at hc
    rw [List.mem_singleton.mp hc]
    rcases v with _ | ⟨d, as⟩ | ⟨xs, as⟩ | ⟨⟨type, repr, length⟩, as⟩
    · exact (by decide : "NULL".toList ∉ basicClasses)
    · exact absurd rfl (hatomic d as)
    · exact (by decide : "list".toList ∉ basicClasses)
    · cases type <;> exact of_decide_eq_true rfl

/-- The call `1 + 1`, and its value. -/
def onePlusOne : SEXP := .other ⟨.LANGSXP, "1 + 1", 3⟩ []

def doubleTwo : SEXP := .atom (.real [0x4000000000000000]) []

/-- Values as R has them where every call comes to two, futures that name a file, and a disk
that takes every file. -/
def namingSurroundings : Surroundings :=
  { plainSurroundings with
    inspect := rInspect fun _ => some doubleTwo
    outputfile := fun _ => .ok "/tmp/cpp-ReturnValue".toList }

/-- A list is written to a file. -/
theorem list_dispatched : Dispatched namingSurroundings (.vec [.nil] []) := by
  have hscalar : ¬ LooksScalar namingSurroundings.inspect (.vec [.nil] []) := by
    intro h
    obtain ⟨i, c, hi, hclasses, hc, _⟩ := h
    cases hi
    cases hclasses
    revert hc
    decide
  apply (dispatched_iff namingSurroundings (rInspect_answersPlain _) _).mpr
  refine ⟨fun h => absurd h hscalar, fun _ => ⟨_, rfl⟩, fun _ _ => rfl⟩

/-- What gets no content type is lost, unless it is an atomic vector without attributes. -/
theorem not_dispatched (hcontent : (processSingleArgument r.inspect x).2 = [])
    (hvector : ∀ d, x ≠ .atom d []) : ¬ Dispatched r x := by
  rintro (hvalue | hfile)
  · obtain ⟨d, hd, _⟩ := hvalue
    exact hvector d hd
  · exact hfile.2.1 hcontent

/-- `c(x = 1)`. -/
def namedDouble : SEXP :=
  .atom (.real [0x3FF0000000000000])
    [(R_NamesSymbol, .atom (.str [some ⟨[120], by decide, by decide⟩]) [])]

/-- `structure(list(NULL), class = "numeric")`. -/
def numericList : SEXP :=
  .vec [.nil] [(R_ClassSymbol,
    .atom (.str [some ⟨[110, 117, 109, 101, 114, 105, 99], by decide, by decide⟩]) [])]

/-- The list called numeric has the file type and no content type, and is handed over as it
is; the named number loses its name; the call goes by value under the type code of its value. -/
theorem scalars_not_dispatched :
    ¬ (AnswersPlain namingSurroundings.inspect → ∀ x, x ≠ missingArg →
      Dispatched namingSurroundings x) ∧
    processSingleArgument namingSurroundings.inspect numericList = (10, []) ∧
    ¬ Dispatched namingSurroundings namedDouble ∧
    processSingleArgument namingSurroundings.inspect onePlusOne = (7, []) ∧
    ¬ Dispatched namingSurroundings onePlusOne := by
  have hlist : ¬ Dispatched namingSurroundings numericList := not_dispatched rfl nofun
  have hnamed : ¬ Dispatched namingSurroundings namedDouble := not_dispatched rfl nofun
  have hcall : ¬ Dispatched namingSurroundings onePlusOne := not_dispatched rfl nofun
  exact ⟨fun h => hlist (h (rInspect_answersPlain _) numericList nofun), rfl, hnamed, rfl, hcall⟩

end

end RCompss.Submission
