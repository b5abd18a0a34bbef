import RCompss.Payload.PathUtils

/-! Which format a payload file is written in, and which one it is read as. -/
namespace RCompss.Payload

inductive SerFormat where
  | cpp | qs | RMVL
  deriving DecidableEq, Repr

/-- `std::transform` with `::tolower`. -/
def lower (t : Text) : Text := t.map Char.toLower

/-- The value of `RCOMPSs_SERIALIZATION` when it names a format. -/
def getDefaultSerializationMethod (env : Option Text) : Text :=
  match env with
  | some method =>
      if lower method ∈ ["cpp".toList, "qs".toList, "rmvl".toList] then method else "cpp".toList
  | none => "cpp".toList

/-- The methods `rcompss_execute_task` makes of its `ser_method`. -/
def serMethods (env : Option Text) (serMethod : List CharSXP) : List Text :=
  let methods := (serMethod.take 2).map fun s =>
    if s.text = [] then getDefaultSerializationMethod env else s.text
  if methods.length < 2 then
    methods ++ [methods.head?.getD (getDefaultSerializationMethod env)]
  else methods

/-- The format `rcompss_serialize` writes; `none` when it stops. -/
def writtenFormat (env : Option Text) (serMethod : Text) : Option SerFormat :=
  let method := if serMethod = [] then getDefaultSerializationMethod env else serMethod
  if lower method = "cpp".toList then some .cpp
  else if lower method = "qs".toList then some .qs
  else if lower method = "rmvl".toList then some .RMVL
  else none

/-- The reader `rcompss_unserialize` chooses. -/
def readFormat (filepath : Text) : SerFormat :=
  let method := extractSerializationMethod filepath
  if method = "cpp".toList then .cpp
  else if method = "qs".toList then .qs
  else if method = "RMVL".toList then .RMVL
  else .cpp

/-- What the reader makes of a method that a name carries. -/
def formatOf (method : Text) : SerFormat :=
  if method = "qs".toList then .qs else if method = "RMVL".toList then .RMVL else .cpp

/-- A method whose capitals the reader knows: the reader folds no case. -/
def ReadAsWritten (method : Text) : Prop :=
  (lower method = "qs".toList → method = "qs".toList) ∧
    (lower method = "rmvl".toList → method = "RMVL".toList)

instance (method : Text) : Decidable (ReadAsWritten method) := inferInstanceAs (Decidable (_ ∧ _))

/-- The method an element of `ser_method` stands for. -/
def effectiveMethod (env : Option Text) (s : CharSXP) : Text :=
  if s.text = [] then getDefaultSerializationMethod env else s.text

/-- Every argument file written with a method, under the name built from it, is read in the
format it was written in. -/
def ArgumentFilesAgree (env : Option Text) (m : Text) : Prop :=
  ∀ (dir argName : Text) (index : ℕ) (uid : UID) (f : SerFormat), SlashFree argName →
    writtenFormat env m = some f →
      readFormat (buildArgumentFilename dir m argName index uid.text) = f

/-- And so is every return file. -/
def ReturnFilesAgree (env : Option Text) (m : Text) : Prop :=
  ∀ (dir : Text) (uid : UID) (f : SerFormat), writtenFormat env m = some f →
    readFormat (returnValueFilename dir m uid.text) = f

/-- There are two methods, one for arguments and one for the return value, and writer and
reader agree on their files. -/
def FormatsAgree (env : Option Text) (serMethod : List CharSXP) : Prop :=
  ∃ input output, serMethods env serMethod = [input, output] ∧ ArgumentFilesAgree env input ∧
    ReturnFilesAgree env output

theorem not_mem_of_lower {m w : Text} {c : Char} (h : lower m = w) (hc : c.toLower = c)
    (hw : c ∉ w) : c ∉ m := by
  intro hm
  have hmem := List.mem_map_of_mem (f := Char.toLower) hm
  rw [hc] at hmem
  exact hw (h ▸ hmem)

theorem getDefaultSerializationMethod_ne_nil (env : Option Text) :
    getDefaultSerializationMethod env ≠ [] := by
  unfold getDefaultSerializationMethod
  split
  · split
    next h =>
      rintro rfl
      revert h
      decide
    next => decide
  · decide

theorem effectiveMethod_ne_nil (env : Option Text) (s : CharSXP) : effectiveMethod env s ≠ [] := by
  unfold effectiveMethod
  split
  · exact getDefaultSerializationMethod_ne_nil env
  next h => exact h

/-- A method that something is written with is one of three, up to case. -/
theorem lower_of_writtenFormat {env : Option Text} {m : Text} {f : SerFormat} (hm : m ≠ [])
    (h : writtenFormat env m = some f) :
    lower m ∈ ["cpp".toList, "qs".toList, "rmvl".toList] := by
  unfold writtenFormat at h
  simp only [if_neg hm] at h
  by_contra hmem
  simp only [List.mem_cons, List.not_mem_nil, or_false, not_or] at hmem
  rw [if_neg hmem.1, if_neg hmem.2.1, if_neg hmem.2.2] at h
  cases h

/-- Such a method has neither slashes nor dashes. -/
theorem plain_of_lower {m : Text} (h : lower m ∈ ["cpp".toList, "qs".toList, "rmvl".toList]) :
    SlashFree m ∧ '-' ∉ m := by
  have hout (c : Char) (hc : c.toLower = c)
      (hw : ∀ w ∈ ["cpp".toList, "qs".toList, "rmvl".toList], c ∉ w) : c ∉ m :=
    not_mem_of_lower rfl hc (hw _ h)
  refine ⟨fun c hc => ?_, hout '-' (by decide) (by decide)⟩
  unfold isSlash
  rw [decide_eq_false_iff_not]
  rintro (rfl | rfl)
  · exact hout '/' (by decide) (by decide) hc
  · exact hout '\\' (by decide) (by decide) hc

/-- The reader goes by the method in front of the name. -/
theorem readFormat_directory (dir : Text) {m rest : Text} (hm : SlashFree m) (hdash : '-' ∉ m)
    (hrest : SlashFree rest) : readFormat (directory dir ++ (m ++ '-' :: rest)) = formatOf m := by
  unfold readFormat formatOf
  rw [extractSerializationMethod_directory dir hm hdash hrest]
  simp only
  by_cases hcpp : m = "cpp".toList
  · subst hcpp
    decide
  · rw [if_neg hcpp]

theorem readFormat_argument (dir : Text) {m argName : Text} (hne : m ≠ []) (hm : SlashFree m)
    (hdash : '-' ∉ m) (hname : SlashFree argName) (index : ℕ) (uid : UID) :
    readFormat (buildArgumentFilename dir m argName index uid.text) = formatOf m := by
  have hrest : SlashFree (argName ++ "_arg[".toList ++ decimal index ++ "]_".toList ++ uid.text) :=
    (((hname.append (by decide)).append (slashFree_decimal index)).append (by decide)).append
      uid.slashFree
  have hsplit := readFormat_directory dir hm hdash hrest
  unfold buildArgumentFilename
  simpa [if_neg hne] using hsplit

theorem readFormat_return (dir : Text) {m : Text} (hm : SlashFree m) (hdash : '-' ∉ m)
    (uid : UID) : readFormat (returnValueFilename dir m uid.text) = formatOf m := by
  have hrest : SlashFree ("ReturnValue_".toList ++ uid.text) :=
    SlashFree.append (by decide) uid.slashFree
  have hsplit := readFormat_directory dir hm hdash hrest
  unfold returnValueFilename
  simpa using hsplit

theorem formatOf_eq_qs {m : Text} : formatOf m = .qs ↔ m = "qs".toList := by
  unfold formatOf
  by_cases hqs : m = "qs".toList
  · rw [if_pos hqs]
    exact ⟨fun _ => hqs, fun _ => rfl⟩
  · rw [if_neg hqs]
    constructor
    · intro h
      split at h <;> cases h
    · exact fun h => absurd h hqs

theorem formatOf_eq_RMVL {m : Text} : formatOf m = .RMVL ↔ m = "RMVL".toList := by
  unfold formatOf
  constructor
  · intro h
    split at h
    · cases h
    split at h
    next hr => exact hr
    next => cases h
  · rintro rfl
    decide

/-- A method in any case that says `cpp` is none of the other two. -/
theorem formatOf_of_cpp {m : Text} (h : lower m = "cpp".toList) : formatOf m = .cpp := by
  unfold formatOf
  split
  next hqs =>
    subst hqs
    revert h
    decide
  split
  next hr =>
    subst hr
    revert h
    decide
  next => rfl

/-- Writer and reader agree on a method exactly when it is read as written. -/
theorem formatOf_written_iff (env : Option Text) {m : Text} (hm : m ≠ []) :
    (∀ f, writtenFormat env m = some f → formatOf m = f) ↔ ReadAsWritten m := by
  unfold writtenFormat ReadAsWritten
  simp only [if_neg hm]
  constructor
  · intro h
    constructor
    · intro hqs
      rw [hqs] at h
      exact formatOf_eq_qs.mp (h .qs (by decide))
    · intro hr
      rw [hr] at h
      exact formatOf_eq_RMVL.mp (h .RMVL (by decide))
  · rintro ⟨hqs, hr⟩ f hf
    split at hf
    next hcpp =>
      cases hf
      exact formatOf_of_cpp hcpp
    split at hf
    next hlower =>
      cases hf
      exact formatOf_eq_qs.mpr (hqs hlower)
    split at hf
    next hlower =>
      cases hf
      exact formatOf_eq_RMVL.mpr (hr hlower)
    next => cases hf

theorem argumentFilesAgree_iff (env : Option Text) {m : Text} (hm : m ≠ []) :
    ArgumentFilesAgree env m ↔ ReadAsWritten m := by
  rw [← formatOf_written_iff env hm]
  constructor
  · intro h f hf
    obtain ⟨hslash, hdash⟩ := plain_of_lower (lower_of_writtenFormat hm hf)
    have hread := h [] [] 1 sampleUID f (by decide) hf
    rwa [readFormat_argument [] hm hslash hdash (by decide)] at hread
  · intro h dir argName index uid f hname hf
    obtain ⟨hslash, hdash⟩ := plain_of_lower (lower_of_writtenFormat hm hf)
    rw [readFormat_argument dir hm hslash hdash hname]
    exact h f hf

theorem returnFilesAgree_iff (env : Option Text) {m : Text} (hm : m ≠ []) :
    ReturnFilesAgree env m ↔ ReadAsWritten m := by
  rw [← formatOf_written_iff env hm]
  constructor
  · intro h f hf
    obtain ⟨hslash, hdash⟩ := plain_of_lower (lower_of_writtenFormat hm hf)
    have hread := h [] sampleUID f hf
    rwa [readFormat_return [] hslash hdash] at hread
  · intro h dir uid f hf
    obtain ⟨hslash, hdash⟩ := plain_of_lower (lower_of_writtenFormat hm hf)
    rw [readFormat_return dir hslash hdash]
    exact h f hf

/-- With both methods at hand, agreement is a matter of their spelling. -/
theorem formatsAgree_of_serMethods {env : Option Text} {serMethod : List CharSXP} {s t : CharSXP}
    (h : serMethods env serMethod = [effectiveMethod env s, effectiveMethod env t]) :
    FormatsAgree env serMethod ↔
      ReadAsWritten (effectiveMethod env s) ∧ ReadAsWritten (effectiveMethod env t) := by
  unfold FormatsAgree
  rw [h, ← argumentFilesAgree_iff env (effectiveMethod_ne_nil env s),
    ← returnFilesAgree_iff env (effectiveMethod_ne_nil env t)]
  constructor
  · rintro ⟨_, _, ⟨⟩, hinput, houtput⟩
    exact ⟨hinput, houtput⟩
  · rintro ⟨hinput, houtput⟩
    exact ⟨_, _, rfl, hinput, houtput⟩

/-- An empty vector leaves the return value without a method. -/
theorem not_formatsAgree_nil (env : Option Text) : ¬ FormatsAgree env [] := by
  rintro ⟨input, output, h, -⟩
  have hlen : 1 = 2 := congrArg List.length h
  contradiction

/-- Writer and reader agree exactly on a vector of methods that is not empty and whose first
two elements are each read as written. -/
theorem formatsAgree_iff (env : Option Text) (serMethod : List CharSXP) :
    FormatsAgree env serMethod ↔
      serMethod ≠ [] ∧ ∀ s ∈ serMethod.take 2, ReadAsWritten (effectiveMethod env s) := by
  match serMethod with
  | [] => simp [not_formatsAgree_nil]
  | [s] =>
    rw [formatsAgree_of_serMethods (s := s) (t := s) rfl]
    simp
  | s :: t :: ss =>
    rw [formatsAgree_of_serMethods (s := s) (t := t) rfl]
    simp

/-- `"QS"` is written as qs and read as cpp. -/
theorem capitals_misread : ¬ FormatsAgree none [some ⟨[81, 83], by decide, by decide⟩] := by
  rintro ⟨input, output, h, hinput, -⟩
  cases h
  have hread := hinput "/tmp".toList "x".toList 1 sampleUID .qs (by decide) (by decide)
  revert hread
  decide

end RCompss.Payload
