import RCompss.Executor.Message
import RCompss.Payload.Methods

/-! Payload paths on their way to the executor, which gets them behind a prefix and a
colon, and reads the method back off the name. -/
namespace RCompss.Payload
open RCompss.Library RCompss.Executor

/-- A method that payloads are written with. -/
structure AcceptedMethod where
  text : Text
  accepted : lower text ∈ ["cpp".toList, "qs".toList, "rmvl".toList]

/-- Behind any prefix and a colon the path is found again, and the method in it. -/
def Survives (path method : Text) : Prop :=
  (∀ q, stripValueSuffix (q ++ ':' :: path) = path) ∧ extractSerializationMethod path = method

/-- What follows the last slash of the name decides where the method is looked for. -/
def MethodInFront (method argName : Text) : Prop :=
  SlashFree argName ∨ method ++ ['-'] <+: basename argName

instance (method argName : Text) : Decidable (MethodInFront method argName) :=
  inferInstanceAs (Decidable (_ ∨ _))

theorem stripValueSuffix_eq (t : Text) :
    stripValueSuffix t = afterLast (fun c => decide (c = ':')) t := by
  unfold stripValueSuffix afterLast
  simp only [ne_eq, decide_not]

/-- The last colon is the one in front of the path exactly when the path has none. -/
theorem stripped_iff (path : Text) :
    (∀ q, stripValueSuffix (q ++ ':' :: path) = path) ↔ ':' ∉ path := by
  have hfree : (∀ c ∈ path, decide (c = ':') = false) ↔ ':' ∉ path := by
    simp only [decide_eq_false_iff_not]
    exact ⟨fun h hc => h ':' hc rfl, fun h c hc hceq => h (hceq ▸ hc)⟩
  rw [← hfree, ← afterLast_eq_self_iff]
  constructor
  · intro h
    have hq := h []
    rwa [stripValueSuffix_eq, afterLast_append_cons (by simp)] at hq
  · intro h q
    rwa [stripValueSuffix_eq, afterLast_append_cons (by simp)]

theorem colon_not_mem_directory (dir : Text) : ':' ∈ directory dir ↔ ':' ∈ dir := by
  unfold directory
  split <;> simp

/-- A digit, a letter: no colon. -/
theorem ne_colon_of_isAlphanum {c : Char} (h : c.isAlphanum = true) : c ≠ ':' := by
  rintro rfl
  revert h
  decide

theorem colon_not_mem_decimal (n : ℕ) : ':' ∉ decimal n := fun h =>
  ne_colon_of_isAlphanum (isAlphanum_of_isDigit (isDigit_decimal h)) rfl

theorem UID.colon_not_mem (uid : UID) : ':' ∉ uid.text := by
  unfold UID.text
  intro h
  rcases List.mem_append.mp h with h | h
  · exact ne_colon_of_isAlphanum (isAlphanum_of_isDigit (uid.time_digits _ h)) rfl
  rcases List.mem_cons.mp h with h | h
  · cases h
  · exact ne_colon_of_isAlphanum (uid.random_alphanum _ h) rfl

namespace AcceptedMethod
variable (m : AcceptedMethod)

theorem ne_nil : m.text ≠ [] := by
  intro h
  have haccepted := m.accepted
  rw [h] at haccepted
  revert haccepted
  decide

/-- No character but a letter of the three methods is in it, up to case. -/
theorem not_mem {c : Char} (hc : c.toLower = c)
    (hw : ∀ w ∈ ["cpp".toList, "qs".toList, "rmvl".toList], c ∉ w) : c ∉ m.text :=
  not_mem_of_lower rfl hc (hw _ m.accepted)

end AcceptedMethod

/-- The part of an argument's file name behind the argument. -/
def argumentSuffix (index : ℕ) (uid : UID) : Text :=
  "_arg[".toList ++ decimal index ++ "]_".toList ++ uid.text

theorem mem_argumentSuffix {c : Char} {index : ℕ} {uid : UID} : c ∈ argumentSuffix index uid ↔
    c ∈ "_arg[".toList ∨ c ∈ decimal index ∨ c ∈ "]_".toList ∨ c ∈ uid.text := by
  unfold argumentSuffix
  simp only [List.mem_append, or_assoc]

theorem slashFree_argumentSuffix (index : ℕ) (uid : UID) : SlashFree (argumentSuffix index uid) :=
  ((SlashFree.append (by decide) (slashFree_decimal index)).append (by decide)).append
    uid.slashFree

theorem buildArgumentFilename_split {method : Text} (hmethod : method ≠ []) (dir argName : Text)
    (index : ℕ) (uid : UID) : buildArgumentFilename dir method argName index uid.text =
      directory dir ++ (method ++ '-' :: argName ++ argumentSuffix index uid) := by
  unfold buildArgumentFilename argumentSuffix
  simp [hmethod]

theorem colon_mem_argument (m : AcceptedMethod) (dir argName : Text) (index : ℕ) (uid : UID) :
    ':' ∈ buildArgumentFilename dir m.text argName index uid.text ↔ ':' ∈ dir ∨ ':' ∈ argName := by
  have hm : ':' ∉ m.text := m.not_mem (by decide) (by decide)
  have hindex := colon_not_mem_decimal index
  have huid := uid.colon_not_mem
  rw [buildArgumentFilename_split m.ne_nil]
  simp [colon_not_mem_directory, mem_argumentSuffix, hm, hindex, huid]

/-- The method is the part up to the first dash exactly when it stands there with a dash;
before the dash of the time there is always a bracket. -/
theorem takeWhile_dash_iff (m : AcceptedMethod) (b : Text) (index : ℕ) (uid : UID) :
    (b ++ argumentSuffix index uid).takeWhile (· ≠ '-') = m.text ↔ m.text ++ ['-'] <+: b := by
  have hdash : ∀ c ∈ m.text, decide (c ≠ '-') = true := by
    intro c hc
    rw [decide_eq_true_eq]
    rintro rfl
    exact m.not_mem (by decide) (by decide) hc
  constructor
  · intro h
    by_cases hb : '-' ∈ b
    · obtain ⟨u, v, rfl, hu⟩ := List.eq_append_cons_of_mem hb
      have hstop : ∀ c ∈ u, decide (c ≠ '-') = true := by
        intro c hc
        rw [decide_eq_true_eq]
        rintro rfl
        exact hu hc
      rw [List.append_assoc, List.cons_append, takeWhile_stop hstop (by simp)] at h
      rw [← h]
      exact ⟨v, by simp⟩
    · have hall : ∀ c ∈ b, decide (c ≠ '-') = true := by
        intro c hc
        rw [decide_eq_true_eq]
        rintro rfl
        exact hb hc
      rw [List.takeWhile_append_of_pos hall] at h
      have hbracket : '[' ∈ m.text := by
        rw [← h]
        apply List.mem_append_right
        unfold argumentSuffix
        simp
      exact absurd hbracket (m.not_mem (by decide) (by decide))
  · rintro ⟨v, rfl⟩
    rw [List.append_assoc, List.append_assoc, List.singleton_append, takeWhile_stop hdash (by simp)]

/-- With a slash in the argument's name the directory, the method and what stands in front
of the slash are cut off. -/
theorem basename_of_slash {argName : Text} (h : ¬ SlashFree argName) (front : Text) :
    basename (front ++ argName) = basename argName := by
  obtain ⟨c, hc, hslash⟩ : ∃ c ∈ argName, isSlash c = true := by
    unfold SlashFree at h
    push Not at h
    simpa using h
  obtain ⟨u, v, rfl, -⟩ := List.eq_append_cons_of_mem hc
  rw [basename_eq, basename_eq, ← List.append_assoc, afterLast_append_cons hslash,
    afterLast_append_cons hslash]

theorem dash_mem_argumentSuffix (index : ℕ) (uid : UID) : '-' ∈ argumentSuffix index uid := by
  simp [mem_argumentSuffix, UID.text]

theorem extract_argument_iff (m : AcceptedMethod) (dir argName : Text) (index : ℕ) (uid : UID) :
    extractSerializationMethod (buildArgumentFilename dir m.text argName index uid.text) = m.text ↔
      MethodInFront m.text argName := by
  have hm := plain_of_lower m.accepted
  have hsuffix := slashFree_argumentSuffix index uid
  rw [buildArgumentFilename_split m.ne_nil]
  by_cases hslash : SlashFree argName
  · have hread := extractSerializationMethod_directory dir hm.1 hm.2 (hslash.append hsuffix)
    rw [← List.cons_append, ← List.append_assoc m.text] at hread
    exact ⟨fun _ => .inl hslash, fun _ => hread⟩
  · have hname :
        basename (directory dir ++ (m.text ++ '-' :: argName ++ argumentSuffix index uid)) =
          basename argName ++ argumentSuffix index uid := by
      have hfront := basename_of_slash hslash (m.text ++ ['-'])
      rw [List.append_assoc, List.singleton_append] at hfront
      rw [basename_directory_append, basename_eq, afterLast_append _ hsuffix, ← basename_eq, hfront]
    unfold extractSerializationMethod MethodInFront
    simp only [hname]
    rw [if_pos (List.mem_append_right _ (dash_mem_argumentSuffix index uid)), takeWhile_dash_iff]
    exact ⟨.inr, fun h => h.resolve_left hslash⟩

/-- An argument's path survives exactly when neither the directory nor the name has a colon,
and the name has no slash, or what follows its last one starts with the method and a dash. -/
theorem argument_survives_iff (m : AcceptedMethod) (dir argName : Text) (index : ℕ) (uid : UID) :
    Survives (buildArgumentFilename dir m.text argName index uid.text) m.text ↔
      (':' ∉ dir ∧ ':' ∉ argName) ∧ MethodInFront m.text argName := by
  unfold Survives
  rw [stripped_iff, colon_mem_argument, extract_argument_iff, not_or]

theorem colon_mem_return (m : AcceptedMethod) (dir : Text) (uid : UID) :
    ':' ∈ returnValueFilename dir m.text uid.text ↔ ':' ∈ dir := by
  have hm : ':' ∉ m.text := m.not_mem (by decide) (by decide)
  have huid := uid.colon_not_mem
  unfold returnValueFilename
  simp [colon_not_mem_directory, hm, huid]

theorem extract_return (m : AcceptedMethod) (dir : Text) (uid : UID) :
    extractSerializationMethod (returnValueFilename dir m.text uid.text) = m.text := by
  have hm := plain_of_lower m.accepted
  have hrest : SlashFree ("ReturnValue_".toList ++ uid.text) :=
    SlashFree.append (by decide) uid.slashFree
  have hread := extractSerializationMethod_directory dir hm.1 hm.2 hrest
  unfold returnValueFilename
  simpa using hread

/-- A return path survives exactly when the directory has no colon. -/
theorem return_survives_iff (m : AcceptedMethod) (dir : Text) (uid : UID) :
    Survives (returnValueFilename dir m.text uid.text) m.text ↔ ':' ∉ dir := by
  unfold Survives
  rw [stripped_iff, colon_mem_return]
  exact and_iff_left (extract_return m dir uid)

/-- Both paths of a task survive their transport exactly when no colon stands in the
directory or the argument's name, and no slash of that name hides the method. -/
theorem paths_survive_iff (m : AcceptedMethod) (dir argName : Text) (index : ℕ) (uid : UID) :
    (Survives (buildArgumentFilename dir m.text argName index uid.text) m.text ↔
        (':' ∉ dir ∧ ':' ∉ argName) ∧ MethodInFront m.text argName) ∧
      (Survives (returnValueFilename dir m.text uid.text) m.text ↔ ':' ∉ dir) :=
  ⟨argument_survives_iff m dir argName index uid, return_survives_iff m dir uid⟩

/-- A formal named `a:b` in backquotes: the executor looks for a file whose path starts
behind its colon. -/
theorem colon_in_name_cut : ¬ ∀ (m : AcceptedMethod) (dir argName : Text) (index : ℕ) (uid : UID),
    argName ≠ [] → Survives (buildArgumentFilename dir m.text argName index uid.text) m.text := by
  intro h
  have hcut := (h ⟨"cpp".toList, by decide⟩ "/tmp".toList "a:b".toList 1 sampleUID (by decide)).1
    "node".toList
  revert hcut
  decide

end RCompss.Payload
