import RCompss.Executor.Layout
import RCompss.Executor.Task

/-! The arguments a task is called with, and the record its result goes to, when the
parameter tokens are laid out as `buildFunctionArgs` indexes them. -/
namespace RCompss.Executor
open RCompss.Library

variable {ρ : Type}

namespace ArgRecord

/-- The token behind the content type. -/
def value : ArgRecord → Text
  | .scalar _ _ _ _ _ value _ => value
  | .string _ _ _ _ words _ => decimal words.length

theorem getElem?_name (r : ArgRecord) (rest : List Text) :
    (r.tokens ++ rest)[3]? = some r.name := by
  cases r <;> rfl

theorem getElem?_value (r : ArgRecord) (rest : List Text) :
    (r.tokens ++ rest)[5]? = some r.value := by
  cases r <;> rfl

end ArgRecord

/-- The records decode one after another, each to its own value. -/
inductive Decodes (rt : Runtime ρ) (a : Affinity) :
    List ArgRecord → List ArgValue → ρ → ρ → Prop
  | nil (s : ρ) : Decodes rt a [] [] s s
  | cons {r : ArgRecord} {rs : List ArgRecord} {v : ArgValue} {vs : List ArgValue} {s t u : ρ}
      (first : exec (r.decode rt a) s = (.ok v, t)) (rest : Decodes rt a rs vs t u) :
      Decodes rt a (r :: rs) (v :: vs) s u

section
variable {rt : Runtime ρ} {a : Affinity} {rs : List ArgRecord} {vs : List ArgValue} {s t : ρ}

theorem Decodes.length_eq (h : Decodes rt a rs vs s t) : vs.length = rs.length := by
  induction h with
  | nil => rfl
  | cons _ _ ih => simp [ih]

theorem Decodes.exec_decodeRecords (h : Decodes rt a rs vs s t) :
    exec (decodeRecords rt a rs) s = (.ok ((rs.map ArgRecord.name).zip vs), t) := by
  induction h with
  | nil => rfl
  | cons first _ ih =>
      unfold decodeRecords
      rw [exec_bind_ok first, exec_bind_ok ih]
      rfl

end

/-- What the records pass to the function: each with its own name and value, in order,
without the placeholders of a result. -/
def passed (rs : List ArgRecord) (vs : List ArgValue) : List (Text × ArgValue) :=
  ((rs.zip vs).filter fun p => !rcompssIsReturnValuePlaceholderArgName p.1.name).map
    fun p => (p.1.name, p.2)

/-- Dropping the placeholders commutes with naming the values. -/
theorem filter_named (rs : List ArgRecord) (vs : List ArgValue) :
    (((rs.map ArgRecord.name).zip vs).filter fun arg =>
      !rcompssIsReturnValuePlaceholderArgName arg.1) = passed rs vs := by
  unfold passed
  rw [List.zip_map_left, List.filter_map]
  rfl

namespace Layout

/-- The number of tokens up to the end of the last record. -/
def recordsEnd (l : Layout) : ℕ := l.front.length + (l.records.flatMap ArgRecord.tokens).length

/-- The record of the result, if there is one, is what is left behind the others. -/
theorem drop_recordsEnd (l : Layout) :
    l.params.drop l.recordsEnd = l.returned.toList.flatMap ArgRecord.tokens := by
  unfold recordsEnd
  rw [← List.drop_drop, l.drop_front, List.drop_left]

/-- Read one token behind the last record, `executeTask` finds the record of the result. -/
theorem returnFile_recordsEnd (l : Layout) {r : ArgRecord} (h : l.returned = some r) :
    (returnFile l.params ((l.recordsEnd : ℤ) + 1) : SessionM ρ (Text × Text)) =
      pure (r.name.takeWhile (· ≠ '-'), stripValueSuffix r.value) := by
  have hdrop : l.params.drop l.recordsEnd = r.tokens ++ [] := by
    rw [l.drop_recordsEnd, h]
    simp
  have hname : (getParam l.params ((l.recordsEnd : ℤ) + 1 + 3) : SessionM ρ Text) =
      pure r.name := by
    apply getParam_drop (k := 3)
    rw [hdrop, r.getElem?_name]
  have hvalue : (getParam l.params ((l.recordsEnd : ℤ) + 1 + 5) : SessionM ρ Text) =
      pure r.value := by
    apply getParam_drop (k := 5)
    rw [hdrop, r.getElem?_value]
  unfold returnFile
  rw [hname, pure_bind, hvalue, pure_bind]

end Layout

/-- Laid out parameters are decoded record by record, for any count of hosts and any mix of
types: one entry for each record that is no placeholder, under its own name and in order;
the return index stands one behind the records, where `executeTask` reads the method and
the path of the result's own record. -/
theorem buildFunctionArgs_decodes (rt : Runtime ρ) (a : Affinity) (l : Layout)
    {values : List ArgValue} {s t : ρ} (h : Decodes rt a l.records values s t) :
    ∃ built, exec (buildFunctionArgs rt a l.params) s = (.ok built, t) ∧
      values.length = l.records.length ∧
      built.args = passed l.records values ∧
      built.numReturns = l.numReturns ∧
      built.returnIndex = (l.recordsEnd : ℤ) + 1 ∧
      l.params.drop l.recordsEnd = l.returned.toList.flatMap ArgRecord.tokens ∧
      ∀ r, l.returned = some r → ∀ u : ρ, exec (returnFile l.params built.returnIndex) u =
        (.ok (r.name.takeWhile (· ≠ '-'), stripValueSuffix r.value), u) := by
  have hindex : (l.front.length : ℤ) + 1 + (l.records.flatMap ArgRecord.tokens).length =
      (l.recordsEnd : ℤ) + 1 := by
    unfold Layout.recordsEnd
    push_cast
    ring
  have hrun : exec (buildFunctionArgs rt a l.params) s =
      (.ok ⟨passed l.records values, l.recordsEnd + 1, l.numReturns⟩, t) := by
    rw [buildFunctionArgs_layout, exec_bind_ok h.exec_decodeRecords, filter_named, hindex]
    rfl
  apply Exists.intro
  constructor
  · exact hrun
  constructor
  · exact h.length_eq
  constructor
  · rfl
  constructor
  · rfl
  constructor
  · rfl
  constructor
  · exact l.drop_recordsEnd
  · intro r hr u
    rw [l.returnFile_recordsEnd hr, exec_pure]

/-- A task with a string of two words between an integer and a placeholder. -/
def mixedLayout : Layout where
  hosts := ["localhost".toList]
  afterHosts := ("-".toList, "-".toList)
  target := "F".toList
  afterTarget := "-".toList
  records := [.scalar "4".toList "3".toList "null".toList "n".toList "null".toList "7".toList
      (by decide), .string "3".toList "null".toList "s".toList "null".toList
      ["two".toList, "words".toList] (by decide), .scalar "10".toList "3".toList "null".toList
      "cpp-RETURN_VALUE".toList "null".toList "node:/tmp/old".toList (by decide)]
  returned := some (.scalar "10".toList "3".toList "null".toList "cpp-RETURN_VALUE".toList
    "object".toList "node:/tmp/ret".toList (by decide))
  hosts_countable := by decide
  no_target := by decide
  records_countable := by decide

theorem mixedLayout_decodes (a : Affinity) : Decodes fullDisk a mixedLayout.records
    [.int 7, .str "two words".toList, .str "/tmp/old".toList] () () :=
  .cons rfl (.cons rfl (.cons rfl (.nil ())))

theorem buildFunctionArgs_mixedLayout :
    let a : Affinity := ⟨none, none, none, none, none, {0}⟩
    ∃ built, exec (buildFunctionArgs fullDisk a mixedLayout.params) () = (.ok built, ()) ∧
      built.args = [("n".toList, .int 7), ("s".toList, .str "two words".toList)] ∧
      built.returnIndex = 29 := by
  intro a
  obtain ⟨built, hrun, _, hargs, _, hindex, _⟩ :=
    buildFunctionArgs_decodes fullDisk a mixedLayout (mixedLayout_decodes a)
  have hlength : mixedLayout.recordsEnd = 28 := by decide
  rw [hlength] at hindex
  exact ⟨built, hrun, hargs, hindex⟩

end RCompss.Executor
