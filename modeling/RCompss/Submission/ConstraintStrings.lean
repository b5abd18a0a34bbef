import RCompss.Library.Separated
import RCompss.Submission.ConstraintGrammar

/-! Constraint strings are read as they were printed, and when that is what the constraints
were. -/
namespace RCompss.Submission
open RCompss.Library

/-- A field as it is printed. -/
def printedField (x : Text × Scalar) : Text := x.1 ++ ": ".toList ++ x.2.shownInRecord

def printedRecord (record : List (Text × Scalar)) : Text :=
  List.intercalate ", ".toList (record.map printedField)

namespace Setting

def printed (f : NumberFormat) : Setting → Text
  | .scalar s => s.shown f
  | .processors records =>
      "[\x7b".toList ++ List.intercalate "\x7d, \x7b".toList
        (records.map fun record => printedRecord record.fields) ++ "\x7d]".toList

/-- What is read of a setting; of no records as of a record without fields. -/
def read (f : NumberFormat) : Setting → ParsedValue
  | .scalar s => .text (s.shown f)
  | .processors [] => .processors [[]]
  | .processors records =>
      .processors (records.map (·.fields.map fun x => (x.1, x.2.shownInRecord)))

end Setting

section printing
variable {f : NumberFormat} {v : Setting} {settings : List (Text × Setting)}

/-- A record is printed if it has names. -/
theorem printEntry_eq {record : Record} (h : record ≠ .bare) :
    printEntry (record.entry f) = .ok (printedRecord record.fields) := by
  cases record with
  | bare => contradiction
  | named fields =>
    have hfields : (fields.map fun x => (x.1, x.2.field f)).mapM
        (fun field => do return field.1 ++ ": ".toList ++ (← field.2.print)) =
        (pure (fields.map printedField) : Except Failure (List Text)) := by
      apply mapM_map_eq_pure
      intro x hx
      simp only [Scalar.print_field]
      rfl
    simp only [Record.entry, printEntry, hfields]
    rfl

/-- What `constraint` stores of a setting. -/
def Setting.stored (f : NumberFormat) : Setting → ConstraintValue
  | .scalar s => .text [some (s.shown f)]
  | .processors records => .list (records.map (·.entry f))

theorem Setting.storedValue_argument : storedValue (v.argument f) = some (v.stored f) := by
  cases v with
  | scalar s => exact Scalar.storedValue_argument
  | processors records => rfl

theorem printValue_stored (h : v.Named) : printValue (v.stored f) = .ok (v.printed f) := by
  cases v with
  | scalar s => rfl
  | processors records =>
    have hentries : (records.map (·.entry f)).mapM printEntry =
        (pure (records.map fun record => printedRecord record.fields) :
          Except Failure (List Text)) := by
      apply mapM_map_eq_pure
      intro record hrecord
      exact printEntry_eq (h record hrecord)
    simp only [Setting.stored, printValue, hentries]
    rfl

/-- The names of a record without any are no strings. -/
theorem named_of_printValue {t : Text} (h : printValue (v.stored f) = .ok t) : v.Named := by
  cases v with
  | scalar s => trivial
  | processors records =>
    obtain ⟨parts, hparts, -⟩ := except_bind_eq_ok.mp h
    intro record hrecord hbare
    subst hbare
    obtain ⟨part, hpart⟩ := exists_of_mapM_eq_ok hparts (List.mem_map_of_mem hrecord)
    cases hpart

theorem constraint_eq : constraint [] (settings.map fun x => (x.1, x.2.argument f)) =
    settings.map fun x => (camelCase x.1, x.2.stored f) := by
  unfold constraint
  simp only [List.filterMap_map, Function.comp_def, Setting.storedValue_argument,
    Option.map_some, List.filterMap_eq_map']
  split
  next h => exact h.symm
  next => rfl

/-- The string is the constraints one after the other. -/
theorem constraintStringOf_eq (h : ∀ x ∈ settings, x.2.Named) : constraintStringOf f settings =
    .ok ((settings.map fun x => camelCase x.1 ++ ':' :: x.2.printed f).flatMap (· ++ [';'])) := by
  have hparts : (settings.map fun x => (camelCase x.1, x.2.stored f)).mapM
        (fun c => do return c.1 ++ ':' :: (← printValue c.2) ++ [';']) =
      (pure ((settings.map fun x => camelCase x.1 ++ ':' :: x.2.printed f).map (· ++ [';'])) :
        Except Failure (List Text)) := by
    rw [List.map_map]
    apply mapM_map_eq_pure
    intro x hx
    simp only [printValue_stored (h x hx)]
    rfl
  unfold constraintStringOf constraintString
  rw [constraint_eq, hparts, List.flatMap]
  rfl

theorem named_of_constraintStringOf {s : Text} (h : constraintStringOf f settings = .ok s) :
    ∀ x ∈ settings, x.2.Named := by
  unfold constraintStringOf constraintString at h
  rw [constraint_eq] at h
  obtain ⟨parts, hparts, -⟩ := except_bind_eq_ok.mp h
  intro x hx
  obtain ⟨part, hpart⟩ := exists_of_mapM_eq_ok hparts (List.mem_map_of_mem hx)
  obtain ⟨t, ht, -⟩ := except_bind_eq_ok.mp hpart
  exact named_of_printValue ht

end printing

section parsing
variable {f : NumberFormat} {v : Setting} {x : Text × Scalar} {record : List (Text × Scalar)}
  {records : List (List (Text × Scalar))} {settings : List (Text × Setting)}

/-- A separator is not in an unseparated text. -/
theorem Unseparated.not_mem {t : Text} {c : Char} (h : Unseparated t) (hc : c ∈ separators) :
    c ∉ t := fun hmem => h c hmem hc

theorem parseField_printed (hkey : Unseparated x.1) :
    parseField (' ' :: printedField x) = some (x.1, x.2.shownInRecord) := by
  have hcut : cut ':' (printedField x) = some (x.1, ' ' :: x.2.shownInRecord) := by
    have hassoc : printedField x = x.1 ++ ':' :: ' ' :: x.2.shownInRecord := by
      unfold printedField
      rw [List.append_assoc]
      rfl
    rw [hassoc]
    exact cut_append (hkey.not_mem (by decide)) _
  rw [parseField, hcut]
  rfl

/-- Printed texts have none of the separators but the colon. -/
theorem not_mem_printedField {c : Char} (hc : c ∈ separators) (hcolon : c ≠ ':')
    (hkey : Unseparated x.1) (hvalue : x.2.Unseparated) : c ∉ printedField x := by
  intro hmem
  obtain hmem | hmem := List.mem_append.mp hmem
  · obtain hmem | hmem := List.mem_append.mp hmem
    · exact hkey.not_mem hc hmem
    · obtain rfl | rfl : c = ':' ∨ c = ' ' := by simpa using hmem
      · exact hcolon rfl
      · exact absurd hc (by decide)
  · exact (Scalar.unseparated_shownInRecord hvalue).not_mem hc hmem

theorem not_mem_intercalate {c : Char} {sep : Text} {ts : List Text} (hsep : c ∉ sep)
    (hts : ∀ t ∈ ts, c ∉ t) : c ∉ List.intercalate sep ts := by
  induction ts with
  | nil => simp
  | cons t ts ih =>
    rw [List.forall_mem_cons] at hts
    cases ts with
    | nil => simpa using hts.1
    | cons u ts =>
      rw [List.intercalate_cons_cons, List.mem_append, List.mem_append]
      exact fun h => h.elim (fun h => h.elim hts.1 hsep) (ih hts.2)

theorem not_mem_printedRecord {c : Char} (hc : c ∈ separators) (hcolon : c ≠ ':')
    (hcomma : c ≠ ',') (h : ∀ x ∈ record, Unseparated x.1 ∧ x.2.Unseparated) :
    c ∉ printedRecord record := by
  apply not_mem_intercalate
  · intro hmem
    obtain rfl | rfl : c = ',' ∨ c = ' ' := by simpa using hmem
    · exact hcomma rfl
    · exact absurd hc (by decide)
  · intro t ht
    obtain ⟨x, hx, rfl⟩ := List.mem_map.mp ht
    exact not_mem_printedField hc hcolon (h x hx).1 (h x hx).2

theorem printedRecord_ne_nil (h : record ≠ []) : printedRecord record ≠ [] := by
  intro hprinted
  obtain ⟨x, xs, rfl⟩ := List.exists_cons_of_ne_nil h
  cases xs with
  | nil =>
    have hlen : printedField x = [] := by simpa [printedRecord] using hprinted
    have hcolon : ':' ∈ printedField x := by simp [printedField]
    rw [hlen] at hcolon
    cases hcolon
  | cons y ys =>
    rw [printedRecord, List.map_cons, List.map_cons, List.intercalate_cons_cons] at hprinted
    simp at hprinted

theorem parseFields_printed (h : ∀ x ∈ record, Unseparated x.1 ∧ x.2.Unseparated) :
    parseFields (printedRecord record) = some (record.map fun x => (x.1, x.2.shownInRecord)) := by
  by_cases hempty : record = []
  · subst hempty
    rfl
  have hmap : record.map printedField ≠ [] := fun hnil => hempty (List.map_eq_nil_iff.mp hnil)
  have hjoin : ' ' :: printedRecord record =
      List.intercalate [','] ((record.map printedField).map (' ' :: ·)) :=
    append_intercalate (a := [' ']) (b := [',']) hmap
  have hcomma : ∀ t ∈ (record.map printedField).map (' ' :: ·), ',' ∉ t := by
    intro t ht
    rw [List.map_map] at ht
    obtain ⟨x, hx, rfl⟩ := List.mem_map.mp ht
    have hno := not_mem_printedField (c := ',') (by decide) (by decide) (h x hx).1 (h x hx).2
    simpa using hno
  unfold parseFields
  rw [if_neg (printedRecord_ne_nil hempty), hjoin, List.splitOn_intercalate ',' hcomma
    (by simpa using hempty), List.map_map]
  apply mapM_map_eq_pure
  intro x hx
  exact parseField_printed (h x hx).1

theorem parseRecords_printed (hrecords : records ≠ [])
    (h : ∀ record ∈ records, ∀ x ∈ record, Unseparated x.1 ∧ x.2.Unseparated) :
    parseRecords ('\x7b' :: List.intercalate "\x7d, \x7b".toList (records.map printedRecord) ++
      ['\x7d']) = some (records.map (·.map fun x => (x.1, x.2.shownInRecord))) := by
  have hmap : records.map printedRecord ≠ [] := fun hnil => hrecords (List.map_eq_nil_iff.mp hnil)
  have hjoin : ", \x7b".toList ++
      List.intercalate (['\x7d'] ++ ", \x7b".toList) (records.map printedRecord) ++ ['\x7d'] =
      ((records.map printedRecord).map (", \x7b".toList ++ ·)).flatMap (· ++ ['\x7d']) := by
    rw [append_intercalate hmap, intercalate_append (by simpa using hrecords)]
  have hbrace : ∀ t ∈ (records.map printedRecord).map (", \x7b".toList ++ ·), '\x7d' ∉ t := by
    intro t ht
    rw [List.map_map] at ht
    obtain ⟨record, hrecord, rfl⟩ := List.mem_map.mp ht
    have hno := not_mem_printedRecord (c := '\x7d') (by decide) (by decide) (by decide)
      (h record hrecord)
    simpa using hno
  have hended := ended_flatMap hbrace
  rw [← hjoin] at hended
  unfold parseRecords
  rw [if_neg (by simp)]
  refine (congrArg (Option.bind · _) hended).trans ?_
  rw [Option.bind_some, List.map_map]
  apply mapM_map_eq_pure
  intro record hrecord
  exact parseFields_printed (h record hrecord)

/-- The string of a setting is read as one. -/
theorem parseValue_printed (h : v.Unseparated) : parseValue (v.printed f) = some (v.read f) := by
  cases v with
  | scalar s =>
    have hbracket := (Scalar.unseparated_shown (f := f) h).not_mem (c := '[') (by decide)
    unfold Setting.printed Setting.read parseValue
    split
    next rest hrest =>
      have hshown : s.shown f = '[' :: rest := hrest
      exact absurd (hshown ▸ List.mem_cons_self) hbracket
    next => rfl
  | processors records =>
    have hvalue (records : List (List (Text × Scalar))) (hne : records ≠ [])
        (h : ∀ record ∈ records, ∀ x ∈ record, Unseparated x.1 ∧ x.2.Unseparated) :
        parseValue ("[\x7b".toList ++ List.intercalate "\x7d, \x7b".toList
          (records.map printedRecord) ++ "\x7d]".toList) =
        some (.processors (records.map (·.map fun x => (x.1, x.2.shownInRecord)))) := by
      have hsplit : "[\x7b".toList ++ List.intercalate "\x7d, \x7b".toList
          (records.map printedRecord) ++ "\x7d]".toList =
          '[' :: (('\x7b' :: List.intercalate "\x7d, \x7b".toList (records.map printedRecord) ++
            ['\x7d']) ++ [']']) := by simp
      rw [hsplit, parseValue, List.getLast?_concat, List.dropLast_concat, if_pos rfl,
        parseRecords_printed hne h]
      rfl
    cases records with
    | nil => exact hvalue [[]] (by decide) (by simp)
    | cons record records =>
      have hfields := hvalue ((record :: records).map Record.fields) (List.cons_ne_nil _ _)
        (List.forall_mem_map.mpr h)
      rw [List.map_map, List.map_map] at hfields
      exact hfields

theorem not_mem_printed {c : Char} (hc : c = ';') (h : v.Unseparated) : c ∉ v.printed f := by
  subst hc
  cases v with
  | scalar s => exact (Scalar.unseparated_shown h).not_mem (by decide)
  | processors records =>
    have hrecords : ';' ∉ List.intercalate "\x7d, \x7b".toList
        (records.map fun record => printedRecord record.fields) := by
      apply not_mem_intercalate (by decide)
      intro t ht
      obtain ⟨record, hrecord, rfl⟩ := List.mem_map.mp ht
      exact not_mem_printedRecord (by decide) (by decide) (by decide) (h record hrecord)
    intro hmem
    obtain hmem | hmem := List.mem_append.mp hmem
    · exact (List.mem_append.mp hmem).elim (by decide) hrecords
    · exact absurd hmem (by decide)

/-- What is read of the string of constraints without separators, whatever they are. -/
theorem parseConstraints_printed (h : WellNamed settings) :
    parseConstraints ((settings.map fun x => camelCase x.1 ++ ':' :: x.2.printed f).flatMap
      (· ++ [';'])) = some (settings.map fun x => (camelCase x.1, x.2.read f)) := by
  have hsemicolon : ∀ t ∈ settings.map fun x => camelCase x.1 ++ ':' :: x.2.printed f,
      ';' ∉ t := by
    intro t ht
    obtain ⟨x, hx, rfl⟩ := List.mem_map.mp ht
    have hkey := (h.keys x hx).not_mem (c := ';') (by decide)
    have hvalue := not_mem_printed (f := f) rfl (h.texts x hx)
    simp [hkey, hvalue]
  unfold parseConstraints
  rw [ended_flatMap hsemicolon]
  apply mapM_map_eq_pure
  intro x hx
  unfold parseConstraint
  rw [cut_append ((h.keys x hx).not_mem (by decide))]
  simp only [Option.bind_eq_bind, Option.bind_some, parseValue_printed (h.texts x hx)]

theorem Setting.Spelled.named (h : v.Spelled f) : v.Named := by
  cases v with
  | scalar s => trivial
  | processors records => exact fun record hrecord => (h.2 record hrecord).1

/-- A setting with names is read as it was if and only if its numbers were printed in digits
and it has records. -/
theorem read_eq_meaning_iff (h : v.Named) : v.read f = v.meaning ↔ v.Spelled f := by
  cases v with
  | scalar s =>
    cases s with
    | double n =>
      simp only [Setting.read, Setting.meaning, Scalar.shown, Scalar.spelled, Setting.Spelled,
        ParsedValue.text.injEq]
      exact (inDigits_iff f n).symm
    | text t => exact iff_of_true rfl trivial
    | integer n => exact iff_of_true rfl trivial
    | logical b => exact iff_of_true rfl trivial
  | processors records =>
    cases records with
    | nil => exact iff_of_false (by simp [Setting.read, Setting.meaning]) fun h => h.1 rfl
    | cons record records =>
      have hcons : record :: records ≠ [] := List.cons_ne_nil _ _
      simp only [Setting.read, Setting.meaning, Setting.Spelled, ParsedValue.processors.injEq,
        List.map_inj_left, Prod.mk.injEq, true_and, Scalar.shownInRecord_eq_spelled_iff, ne_eq,
        hcons, not_false_eq_true]
      exact forall₂_congr fun record hrecord => (and_iff_right (h record hrecord)).symm

end parsing

/-- A constraint string is read as the constraints it was made of if and only if R writes each
number of theirs in digits, no processor has a double or is without names, and no list is without
processors. -/
theorem constraints_read_back_iff (f : NumberFormat) (settings : List (Text × Setting))
    (h : WellNamed settings) : ReadsBack f settings ↔ ∀ x ∈ settings, x.2.Spelled f := by
  unfold ReadsBack
  constructor
  · intro hread
    obtain ⟨s, hs, hparsed⟩ := hread
    have hnamed := named_of_constraintStringOf hs
    rw [constraintStringOf_eq hnamed] at hs
    cases hs
    rw [parseConstraints_printed h, Option.some.injEq, List.map_inj_left] at hparsed
    intro x hx
    exact (read_eq_meaning_iff (hnamed x hx)).mp (congrArg Prod.snd (hparsed x hx))
  · intro hspelled
    have hnamed : ∀ x ∈ settings, x.2.Named := fun x hx => (hspelled x hx).named
    refine ⟨_, constraintStringOf_eq hnamed, ?_⟩
    rw [parseConstraints_printed h, Option.some.injEq, List.map_inj_left]
    intro x hx
    rw [(read_eq_meaning_iff (hnamed x hx)).mpr (hspelled x hx)]

theorem mem_significand {n : ℕ} {c : Char} (h : c ∈ significand n) : c ∈ decimal n := by
  have hdrop := List.mem_reverse.mp h
  exact List.mem_reverse.mp ((List.dropWhile_suffix _).subset hdrop)

theorem scientific_numeric {n : ℤ} {c : Char} (h : c ∈ scientific n) :
    c.isDigit = true ∨ c ∈ ['-', '.', 'e', '+'] := by
  have hsigned : ∀ c ∈ if n < 0 then ['-'] else [], c = '-' := by
    split <;> simp
  have hsignificand {c : Char} (h : c ∈ significand n.natAbs) : c.isDigit = true :=
    isDigit_decimal (mem_significand h)
  unfold scientific at h
  obtain h | h := List.mem_append.mp h
  · obtain h | h := List.mem_append.mp h
    · exact .inr (hsigned c h ▸ List.mem_cons_self)
    · split at h
      next d e digits heq =>
        rw [heq] at hsignificand
        obtain rfl | h := List.mem_cons.mp h
        · exact .inl (hsignificand List.mem_cons_self)
        · obtain rfl | h := List.mem_cons.mp h
          · exact .inr (by decide)
          · exact .inl (hsignificand (List.mem_cons_of_mem d h))
      next => exact .inl (hsignificand h)
  · obtain rfl | h := List.mem_cons.mp h
    · exact .inr (by decide)
    · obtain rfl | h := List.mem_cons.mp h
      · exact .inr (by decide)
      · split at h
        · obtain rfl | h := List.mem_cons.mp h
          · exact .inl (by decide)
          · exact .inl (isDigit_decimal h)
        · exact .inl (isDigit_decimal h)

/-- `as.character` where all digits count. -/
def shorterFormat : NumberFormat where
  asCharacter := shorter
  short _ _ := rfl
  numeric n c hc := by
    unfold shorter at hc
    split at hc
    · obtain h | h := decimalInt_numeric hc
      · exact .inl h
      · exact .inr (h ▸ List.mem_cons_self)
    · exact scientific_numeric hc

theorem unseparated_single {x : Text × Scalar} (hkey : Unseparated x.1)
    (hvalue : x.2.Unseparated) : (Setting.processors [.named [x]]).Unseparated := by
  intro record hrecord y hy
  obtain rfl := List.mem_singleton.mp hrecord
  obtain rfl := List.mem_singleton.mp hy
  exact ⟨hkey, hvalue⟩

/-- `computing_units = 4`, `processors = list(list(processorType = "CPU"))`. -/
def cpuSettings : List (Text × Setting) :=
  [("computing_units".toList, .scalar (.double 4)),
    ("processors".toList, .processors [.named [("processorType".toList, .text "CPU".toList)]])]

theorem cpu_settings_read_back : ReadsBack shorterFormat cpuSettings := by
  apply (constraints_read_back_iff shorterFormat cpuSettings ?_).mpr
  · unfold cpuSettings
    rw [List.forall_mem_cons, List.forall_mem_singleton]
    constructor
    · have hshort : (decimalInt 4).length ≤ (scientific 4).length := by decide
      exact hshort
    · simp [Setting.Spelled, Record.fields]
  · constructor
    · decide
    · unfold cpuSettings
      rw [List.forall_mem_cons, List.forall_mem_singleton]
      exact ⟨unseparated_of_all rfl, unseparated_of_all rfl⟩
    · unfold cpuSettings
      rw [List.forall_mem_cons, List.forall_mem_singleton]
      exact ⟨trivial, unseparated_single (unseparated_of_all rfl) (unseparated_of_all rfl)⟩

/-- `processors = list(list(computingUnits = 4))`. -/
def unitsSettings : List (Text × Setting) :=
  [("processors".toList, .processors [.named [("computingUnits".toList, .double 4)]])]

/-- The four in the processor is printed as `4.000000`. -/
theorem units_not_read_back : constraintStringOf shorterFormat unitsSettings =
    .ok "processors:[\x7bcomputingUnits: 4.000000\x7d];".toList ∧
    ¬ ∀ (f : NumberFormat) (settings : List (Text × Setting)),
      WellNamed settings → ReadsBack f settings := by
  have hprinted : ∀ x ∈ unitsSettings, x.2.Named := by
    unfold unitsSettings
    simp [Setting.Named]
  constructor
  · rw [constraintStringOf_eq hprinted, Except.ok.injEq]
    decide
  · intro h
    have hnamed : WellNamed unitsSettings := by
      constructor
      · decide
      · unfold unitsSettings
        rw [List.forall_mem_singleton]
        exact unseparated_of_all rfl
      · unfold unitsSettings
        rw [List.forall_mem_singleton]
        exact unseparated_single (unseparated_of_all rfl) trivial
    obtain ⟨s, hs, hread⟩ := h shorterFormat unitsSettings hnamed
    rw [constraintStringOf_eq hprinted] at hs
    cases hs
    rw [parseConstraints_printed hnamed] at hread
    revert hread
    decide

end RCompss.Submission
