import RCompss.Library.Separated
import RCompss.Payload.Transport

/-! No two payloads share a file. A name is a concatenation without escapes, around a name of
the user's choice, but each of its other fields is found again from one of its ends. -/
namespace RCompss.Payload
open RCompss.Library

/-- A method that stands apart from what follows its dash. -/
@[ext] structure DashFreeMethod where
  text : Text
  ne_nil : text ≠ []
  dashFree : '-' ∉ text

/-- What `buildArgumentFilename` makes a name of. -/
@[ext] structure ArgumentFile where
  method : DashFreeMethod
  argName : Text
  index : ℕ
  uid : UID

def ArgumentFile.name (masterWorkingDir : Text) (file : ArgumentFile) : Text :=
  buildArgumentFilename masterWorkingDir file.method.text file.argName file.index file.uid.text

theorem UID.length_text (uid : UID) : uid.text.length = 65 := by
  unfold UID.text
  rw [List.length_append, List.length_cons, uid.time_length, uid.random_length]

theorem UID.text_injective : Function.Injective UID.text := by
  intro uid uid' h
  obtain ⟨time, random, htime, hdigits, hrandom, halphanum⟩ := uid
  obtain ⟨time', random', htime', hdigits', hrandom', halphanum'⟩ := uid'
  obtain ⟨rfl, hrest⟩ := List.append_inj h (htime.trans htime'.symm)
  cases hrest
  rfl

/-- From its end backwards: the UID, two characters, the index, a bracket. -/
theorem append_argumentSuffix (argName : Text) (index : ℕ) (uid : UID) :
    argName ++ argumentSuffix index uid =
      (argName ++ "_arg".toList ++ '[' :: decimal index) ++ "]_".toList ++ uid.text := by
  unfold argumentSuffix
  simp

def isBracket (c : Char) : Bool := c = '['

theorem bracket_free_decimal (n : ℕ) : ∀ c ∈ decimal n, isBracket c = false := by
  intro c hc
  unfold isBracket
  rw [decide_eq_false_iff_not]
  rintro rfl
  have hdigit := isDigit_decimal hc
  revert hdigit
  decide

/-- Whatever the argument's name contains, the last bracket in front of the UID is not in it. -/
theorem argument_fields_inj {argName argName' : Text} {index index' : ℕ} {uid uid' : UID}
    (h : argName ++ argumentSuffix index uid = argName' ++ argumentSuffix index' uid') :
    argName = argName' ∧ index = index' ∧ uid = uid' := by
  rw [append_argumentSuffix, append_argumentSuffix] at h
  obtain ⟨hfront, huid⟩ := List.append_inj' h (uid.length_text.trans uid'.length_text.symm)
  have hbracket : isBracket '[' = true := rfl
  obtain ⟨hname, hindex⟩ := last_sep_inj hbracket (bracket_free_decimal index)
    (bracket_free_decimal index') (List.append_cancel_right hfront)
  exact ⟨List.append_cancel_right hname, decimal_injective hindex, UID.text_injective huid⟩

theorem ArgumentFile.name_eq (dir : Text) (file : ArgumentFile) : file.name dir =
    directory dir ++ (file.method.text ++ '-' ::
      (file.argName ++ argumentSuffix file.index file.uid)) := by
  unfold ArgumentFile.name
  rw [buildArgumentFilename_split file.method.ne_nil, List.append_assoc file.method.text,
    List.cons_append]

theorem ArgumentFile.name_injective (dir : Text) :
    Function.Injective (ArgumentFile.name dir) := by
  intro file file' h
  rw [file.name_eq, file'.name_eq] at h
  obtain ⟨hmethod, hrest⟩ := first_sep_inj file.method.dashFree file'.method.dashFree
    (List.append_cancel_left h)
  obtain ⟨hname, hindex, huid⟩ := argument_fields_inj hrest
  exact ArgumentFile.ext (DashFreeMethod.ext hmethod) hname hindex huid

/-- In front of the UID an argument's name has a bracket where a return value's has a letter. -/
theorem ArgumentFile.name_ne_return (dir : Text) (file : ArgumentFile) (method : Text)
    (uid : UID) : file.name dir ≠ returnValueFilename dir method uid.text := by
  intro h
  have hreturn : returnValueFilename dir method uid.text =
      (directory dir ++ method ++ "-ReturnValu".toList) ++ "e_".toList ++ uid.text := by
    unfold returnValueFilename
    simp
  rw [file.name_eq, append_argumentSuffix, hreturn] at h
  simp only [← List.append_assoc, ← List.cons_append] at h
  obtain ⟨hfront, -⟩ := List.append_inj' h (file.uid.length_text.trans uid.length_text.symm)
  obtain ⟨-, hletter⟩ := List.append_inj' hfront rfl
  revert hletter
  decide

/-- `PathUtils` differs from `TaskDecorator` in the empty method, which it takes for `cpp`. -/
theorem buildReturnValueFilename_eq (dir method uid : Text) :
    buildReturnValueFilename dir method uid =
      returnValueFilename dir (if method = [] then "cpp".toList else method) uid := rfl

/-- In one master directory the name of an argument's file tells the method, the argument, its
index and the UID, and no return value's file has that name. -/
theorem payload_names_collision_free (dir : Text) :
    Function.Injective (ArgumentFile.name dir) ∧
      ∀ (file : ArgumentFile) (method : Text) (uid : UID),
        file.name dir ≠ returnValueFilename dir method uid.text ∧
          file.name dir ≠ buildReturnValueFilename dir method uid.text := by
  refine ⟨ArgumentFile.name_injective dir, fun file method uid => ?_⟩
  rw [buildReturnValueFilename_eq]
  exact ⟨file.name_ne_return dir method uid, file.name_ne_return dir _ uid⟩

end RCompss.Payload
