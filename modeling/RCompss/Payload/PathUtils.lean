import RCompss.Text
import RCompss.Library.AfterLast

/-! Names of payload files. -/
namespace RCompss.Payload
open RCompss.Library

def isSlash (c : Char) : Bool := c = '/' ∨ c = '\\'

/-- What follows the last slash or backslash. -/
def basename (filepath : Text) : Text :=
  (filepath.reverse.takeWhile fun c => !isSlash c).reverse

/-- The name up to its first dash; empty without one. -/
def extractSerializationMethod (filepath : Text) : Text :=
  let filename := basename filepath
  if '-' ∈ filename then filename.takeWhile (· ≠ '-') else []

/-- The master directory, with a slash behind it unless it is empty or has one. -/
def directory (masterWorkingDir : Text) : Text :=
  if masterWorkingDir ≠ [] ∧ masterWorkingDir.getLast? ≠ some '/' then masterWorkingDir ++ ['/']
  else masterWorkingDir

def buildArgumentFilename (masterWorkingDir serMethod argName : Text) (index : ℕ) (uid : Text) :
    Text :=
  let method := if serMethod = [] then "cpp".toList else serMethod
  directory masterWorkingDir ++ method ++ "-".toList ++ argName ++ "_arg[".toList ++
    decimal index ++ "]_".toList ++ uid

/-- The file of `TaskDecorator::buildReturnValue`. -/
def returnValueFilename (masterWorkingDir serMethod uid : Text) : Text :=
  directory masterWorkingDir ++ serMethod ++ "-ReturnValue_".toList ++ uid

def buildReturnValueFilename (masterWorkingDir serMethod uid : Text) : Text :=
  let method := if serMethod = [] then "cpp".toList else serMethod
  directory masterWorkingDir ++ method ++ "-ReturnValue_".toList ++ uid

def buildReturnValueName (serMethod : Text) : Text := serMethod ++ "-RETURN_VALUE".toList

/-- The shape of `UIDGenerator::generate`: a time of fourteen digits, and fifty letters and
digits. -/
structure UID where
  time : Text
  random : Text
  time_length : time.length = 14
  time_digits : ∀ c ∈ time, c.isDigit = true
  random_length : random.length = 50
  random_alphanum : ∀ c ∈ random, c.isAlphanum = true

def UID.text (uid : UID) : Text := uid.time ++ '-' :: uid.random

def sampleUID : UID where
  time := "20250101120000".toList
  random := List.replicate 50 'a'
  time_length := rfl
  time_digits := List.all_eq_true.mp (by decide)
  random_length := rfl
  random_alphanum := List.all_eq_true.mp (by decide)

/-- No slash and no backslash. -/
def SlashFree (t : Text) : Prop := ∀ c ∈ t, isSlash c = false

instance (t : Text) : Decidable (SlashFree t) := List.decidableBAll _ t

theorem SlashFree.append {s t : Text} (hs : SlashFree s) (ht : SlashFree t) :
    SlashFree (s ++ t) := by
  unfold SlashFree at *
  simp only [List.forall_mem_append]
  exact ⟨hs, ht⟩

theorem isSlash_of_isAlphanum {c : Char} (h : c.isAlphanum = true) : isSlash c = false := by
  unfold isSlash
  rw [decide_eq_false_iff_not]
  rintro (rfl | rfl) <;> revert h <;> decide

theorem isAlphanum_of_isDigit {c : Char} (h : c.isDigit = true) : c.isAlphanum = true := by
  simp [Char.isAlphanum, h]

theorem slashFree_decimal (n : ℕ) : SlashFree (decimal n) := fun _ hc =>
  isSlash_of_isAlphanum (isAlphanum_of_isDigit (isDigit_decimal hc))

theorem UID.slashFree (uid : UID) : SlashFree uid.text := by
  unfold SlashFree UID.text
  simp only [List.forall_mem_append, List.forall_mem_cons]
  exact ⟨fun c hc => isSlash_of_isAlphanum (isAlphanum_of_isDigit (uid.time_digits c hc)),
    by decide, fun c hc => isSlash_of_isAlphanum (uid.random_alphanum c hc)⟩

/-- A directory is empty or ends in a slash. -/
theorem directory_cases (dir : Text) : directory dir = [] ∨ ∃ d, directory dir = d ++ ['/'] := by
  unfold directory
  split
  · exact Or.inr ⟨dir, rfl⟩
  next h =>
    rcases List.eq_nil_or_concat dir with rfl | ⟨d, c, rfl⟩
    · exact Or.inl rfl
    · have hc : c = '/' := by simpa using h
      exact Or.inr ⟨d, by rw [hc, List.concat_eq_append]⟩

theorem takeWhile_stop {p : Char → Bool} {s t : Text} {c : Char} (hs : ∀ d ∈ s, p d = true)
    (hc : p c = false) : (s ++ c :: t).takeWhile p = s := by
  rw [List.takeWhile_append_of_pos hs, List.takeWhile_cons_of_neg (by simp [hc]), List.append_nil]

theorem basename_eq (t : Text) : basename t = afterLast isSlash t := rfl

/-- Behind a directory the basename is that of the rest. -/
theorem basename_directory_append (dir name : Text) :
    basename (directory dir ++ name) = basename name := by
  rw [basename_eq, basename_eq]
  rcases directory_cases dir with hdir | ⟨d, hdir⟩ <;> rw [hdir]
  · rw [List.nil_append]
  · rw [List.append_assoc, List.singleton_append, afterLast_append_cons rfl]

/-- Behind a directory a name without slashes is the basename. -/
theorem basename_directory (dir : Text) {name : Text} (h : SlashFree name) :
    basename (directory dir ++ name) = name := by
  rw [basename_directory_append, basename_eq, afterLast_of_free h]

/-- The method is read back off a name that starts with it. -/
theorem extractSerializationMethod_directory (dir : Text) {method rest : Text}
    (hmethod : SlashFree method) (hdash : '-' ∉ method) (hrest : SlashFree rest) :
    extractSerializationMethod (directory dir ++ (method ++ '-' :: rest)) = method := by
  have hname : SlashFree (method ++ '-' :: rest) :=
    hmethod.append fun c hc => by
      rcases List.mem_cons.mp hc with rfl | hc
      · rfl
      · exact hrest c hc
  have hbefore : ∀ c ∈ method, decide (c ≠ '-') = true := by
    intro c hc
    rw [decide_eq_true_eq]
    rintro rfl
    exact hdash hc
  unfold extractSerializationMethod
  simp only [basename_directory dir hname]
  rw [if_pos (by simp), takeWhile_stop hbefore rfl]

end RCompss.Payload
