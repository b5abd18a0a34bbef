import RCompss.Submission.Dispatch

/-! `TypeChecker` and the tests on R values that rest on it. -/
namespace RCompss.Submission

namespace TypeChecker

def isBasicType (rClass rType : Text) (length : ℕ) : Bool :=
  if length ≠ 1 then false
  else if rClass = "integer".toList ∨ rClass = "numeric".toList ∨
      rClass = "character".toList then true
  else if rType = "integer".toList ∨ rType = "double".toList ∨
      rType = "character".toList then true
  else false

def isFutureObject (rClass : Text) : Bool := rClass = "future_object".toList

def isFutureObjectPath (rClass : Text) : Bool := rClass = "future_object_path".toList

def isList (rClass : Text) : Bool := rClass = "list".toList

end TypeChecker

/-- The class of a value that has only one; otherwise an empty string. -/
def Inspection.singleClass (i : Inspection) : Text :=
  if i.classes.length = 1 then i.classes.head?.getD [] else []

def rcompssIsBasicType (i : Inspection) : Bool :=
  TypeChecker.isBasicType i.singleClass i.rType i.length

def rcompssIsFutureObject (i : Inspection) : Bool := TypeChecker.isFutureObject i.singleClass

def rcompssIsFutureObjectPath (i : Inspection) : Bool :=
  TypeChecker.isFutureObjectPath i.singleClass

def rcompssIsList (i : Inspection) : Bool := TypeChecker.isList i.singleClass

/-- The storage types that the basic classes have by themselves. -/
def basicTypes : List Text := ["integer", "double", "character"].map String.toList

/-- The class is a single basic one. -/
def Inspection.HasBasicClass (i : Inspection) : Prop := ∃ c ∈ basicClasses, i.classes = [c]

section
variable {i : Inspection} {c : Text}

/-- A name other than the empty one is that of the only class. -/
theorem singleClass_eq (hc : c ≠ []) : i.singleClass = c ↔ i.classes = [c] := by
  unfold Inspection.singleClass
  split
  next hone =>
    obtain ⟨d, hd⟩ := List.length_eq_one_iff.mp hone
    simp [hd]
  next hmany =>
    constructor
    · intro hempty
      exact absurd hempty.symm hc
    · intro hone
      exact absurd (congrArg List.length hone) hmany

theorem rcompssIsFutureObject_iff :
    rcompssIsFutureObject i = true ↔ i.classes = ["future_object".toList] := by
  rw [rcompssIsFutureObject, TypeChecker.isFutureObject, decide_eq_true_iff]
  exact singleClass_eq (by decide)

theorem rcompssIsList_iff : rcompssIsList i = true ↔ i.classes = ["list".toList] := by
  rw [rcompssIsList, TypeChecker.isList, decide_eq_true_iff]
  exact singleClass_eq (by decide)

/-- The test on the class alone, as the comments of both functions spell it. -/
theorem hasBasicClass_iff : i.HasBasicClass ↔ i.singleClass = "integer".toList ∨
    i.singleClass = "numeric".toList ∨ i.singleClass = "character".toList := by
  rw [singleClass_eq (by decide), singleClass_eq (by decide), singleClass_eq (by decide)]
  simp [Inspection.HasBasicClass, basicClasses]

theorem needsSerialization_iff :
    (processArgument (i.classes.head?.getD []) i.rType i.length
      i.classes.length).needsSerialization = false ↔ i.length = 1 ∧ i.HasBasicClass := by
  rw [hasBasicClass_iff]
  unfold processArgument Inspection.singleClass
  by_cases hone : i.classes.length = 1
  · rw [if_pos hone]
    split
    next h => simpa using h.2
    next h =>
      have hno : ¬ (i.length = 1 ∧ (i.classes.head?.getD [] = "integer".toList ∨
          i.classes.head?.getD [] = "numeric".toList ∨
          i.classes.head?.getD [] = "character".toList)) := fun hyes => h ⟨hone, hyes⟩
      split <;> simp only [Bool.true_eq_false, false_iff] <;> exact hno
  · have hnone : ¬ ([] = "integer".toList ∨ [] = "numeric".toList ∨
        ([] : Text) = "character".toList) := by decide
    rw [if_neg hone, if_neg fun h => hone h.1, if_neg fun h => hone h.1]
    simp only [Bool.true_eq_false, false_iff]
    exact fun h => hnone h.2

theorem rcompssIsBasicType_eq_true :
    rcompssIsBasicType i = true ↔ i.length = 1 ∧ (i.HasBasicClass ∨ i.rType ∈ basicTypes) := by
  have htype : i.rType ∈ basicTypes ↔ i.rType = "integer".toList ∨ i.rType = "double".toList ∨
      i.rType = "character".toList := by simp [basicTypes]
  rw [htype, hasBasicClass_iff]
  unfold rcompssIsBasicType TypeChecker.isBasicType
  split
  next hlen => simp only [Bool.false_eq_true, false_iff, not_and, hlen, false_implies]
  next hlen =>
    split
    next hclass => exact iff_of_true rfl ⟨not_not.mp hlen, .inl hclass⟩
    next hclass =>
      split
      next hstored => exact iff_of_true rfl ⟨not_not.mp hlen, .inr hstored⟩
      next hstored => exact iff_of_false Bool.false_ne_true fun h => h.2.elim hclass hstored

/-- Both tests look at the class. -/
theorem tests_agree (h : i.length = 1 → i.rType ∈ basicTypes → i.HasBasicClass) :
    rcompssIsBasicType i = true ↔
      (processArgument (i.classes.head?.getD []) i.rType i.length
        i.classes.length).needsSerialization = false := by
  rw [rcompssIsBasicType_eq_true, needsSerialization_iff]
  constructor
  · intro hbasic
    obtain ⟨hlen, hclass | htype⟩ := hbasic
    · exact ⟨hlen, hclass⟩
    · exact ⟨hlen, h hlen htype⟩
  · intro hclass
    exact ⟨hclass.1, .inl hclass.2⟩

end

/-- The tests agree on a value, unless it is of length one with the storage type of a basic
class and without its class. -/
theorem basic_type_tests_agree_iff (i : Inspection) :
    (rcompssIsBasicType i = true ↔
      (processArgument (i.classes.head?.getD []) i.rType i.length
        i.classes.length).needsSerialization = false) ↔
      (i.length = 1 → i.rType ∈ basicTypes → i.HasBasicClass) := by
  constructor
  · intro hagree hlen htype
    rw [rcompssIsBasicType_eq_true, needsSerialization_iff] at hagree
    exact (hagree.mp ⟨hlen, .inr htype⟩).2
  · exact tests_agree

/-- What R says of `factor("a")`. -/
def factorInspection : Inspection := ⟨["factor".toList], "integer".toList, 1⟩

/-- A factor of length one is a basic type to one test only. -/
theorem factor_tests_disagree : ¬ ∀ i : Inspection, rcompssIsBasicType i = true ↔
    (processArgument (i.classes.head?.getD []) i.rType i.length
      i.classes.length).needsSerialization = false := by
  intro h
  have hserialized : (processArgument (factorInspection.classes.head?.getD [])
      factorInspection.rType factorInspection.length
      factorInspection.classes.length).needsSerialization = true := by decide
  have hfree := (h factorInspection).mp (by decide)
  rw [hserialized] at hfree
  contradiction

end RCompss.Submission
