import RCompss.Library.Runs
import RCompss.Payload.FileNames
import RCompss.Payload.Store

/-! The payloads of a master directory as a map from what they are of to their values. -/
namespace RCompss.Payload
open RCompss.Library RCompss.Serialization RCompss.Executor

deriving instance DecidableEq for UID, DashFreeMethod, ArgumentFile

/-- What a payload file is of. -/
inductive Slot where
  | argument (file : ArgumentFile)
  | returnValue (method : DashFreeMethod) (uid : UID)
  deriving DecidableEq

namespace Slot

def method : Slot → DashFreeMethod
  | argument file => file.method
  | returnValue method _ => method

def path (masterWorkingDir : Text) : Slot → Text
  | argument file => file.name masterWorkingDir
  | returnValue method uid => returnValueFilename masterWorkingDir method.text uid.text

/-- Its path is found again behind a colon, and the method in it. -/
def Found (masterWorkingDir : Text) : Slot → Prop
  | argument file => (':' ∉ masterWorkingDir ∧ ':' ∉ file.argName) ∧
      MethodInFront file.method.text file.argName
  | returnValue _ _ => ':' ∉ masterWorkingDir

end Slot

theorem returnValueFilename_inj {dir : Text} {m m' : DashFreeMethod} {uid uid' : UID}
    (h : returnValueFilename dir m.text uid.text = returnValueFilename dir m'.text uid'.text) :
    m = m' ∧ uid = uid' := by
  unfold returnValueFilename at h
  obtain ⟨hfront, huid⟩ := List.append_inj' h (uid.length_text.trans uid'.length_text.symm)
  have hmethod := List.append_cancel_left (List.append_cancel_right hfront)
  exact ⟨DashFreeMethod.ext hmethod, UID.text_injective huid⟩

/-- No two payloads share a file. -/
theorem Slot.path_injective (dir : Text) : Function.Injective (Slot.path dir) := by
  intro slot slot' h
  cases slot with
  | argument file =>
    cases slot' with
    | argument file' => rw [ArgumentFile.name_injective dir h]
    | returnValue m uid => exact absurd h (file.name_ne_return dir m.text uid)
  | returnValue m uid =>
    cases slot' with
    | argument file => exact absurd h.symm (file.name_ne_return dir m.text uid)
    | returnValue m' uid' =>
      obtain ⟨hm, huid⟩ := returnValueFilename_inj h
      rw [hm, huid]

theorem Slot.survives {slot : Slot} {dir : Text} (hcpp : lower slot.method.text = "cpp".toList)
    (h : slot.Found dir) : Survives (slot.path dir) slot.method.text := by
  have haccepted : lower slot.method.text ∈ ["cpp".toList, "qs".toList, "rmvl".toList] := by
    rw [hcpp]
    exact List.mem_cons_self
  cases slot with
  | argument file => exact (argument_survives_iff ⟨_, haccepted⟩ dir file.argName _ _).mpr h
  | returnValue m uid => exact (return_survives_iff ⟨_, haccepted⟩ dir uid).mpr h

/-- A call of `rcompss_serialize` for a payload. -/
structure PayloadWrite where
  slot : Slot
  value : ShortValue

/-- A call changes the file of its path, also when it raises. -/
def PayloadWrite.run (d : Packages) (env : Option Text) (dir : Text) (w : PayloadWrite)
    (files : Files) : Files :=
  Function.update files (w.slot.path dir)
    (exec (rcompssSerialize d env w.value.value (w.slot.path dir) w.slot.method.text)
      (files (w.slot.path dir))).2

/-- What a payload file is for: it keeps the value last written. -/
def PayloadWrite.keep (w : PayloadWrite) (values : Slot → Option ShortValue) :
    Slot → Option ShortValue :=
  Function.update values w.slot (some w.value)

section
variable {d : Packages} {env : Option Text} {dir : Text} {start : Files}

/-- A file has what was written last, over whatever was there, or was never written. -/
def HoldsLast (d : Packages) (env : Option Text) (dir : Text) (start : Files) (slot : Slot)
    (last : Option ShortValue) (content : Option Bytes) : Prop :=
  match last with
  | none => content = start (slot.path dir)
  | some v => ∃ old, content =
      (exec (rcompssSerialize d env v.value (slot.path dir) slot.method.text) old).2

theorem holdsLast_run {values : Slot → Option ShortValue} {files : Files}
    (h : ∀ slot, HoldsLast d env dir start slot (values slot) (files (slot.path dir)))
    (w : PayloadWrite) (slot : Slot) :
    HoldsLast d env dir start slot (w.keep values slot)
      (w.run d env dir files (slot.path dir)) := by
  by_cases hslot : slot = w.slot
  · subst hslot
    rw [PayloadWrite.keep, PayloadWrite.run, Function.update_self, Function.update_self]
    exact ⟨files (w.slot.path dir), rfl⟩
  · have hpath : slot.path dir ≠ w.slot.path dir := fun heq =>
      hslot (Slot.path_injective dir heq)
    rw [PayloadWrite.keep, PayloadWrite.run, Function.update_of_ne hslot,
      Function.update_of_ne hpath]
    exact h slot

theorem holdsLast_steps (ws : List PayloadWrite) {values : Slot → Option ShortValue}
    {files : Files}
    (h : ∀ slot, HoldsLast d env dir start slot (values slot) (files (slot.path dir)))
    (slot : Slot) :
    HoldsLast d env dir start slot (steps PayloadWrite.keep ws values slot)
      (steps (PayloadWrite.run d env dir) ws files (slot.path dir)) := by
  induction ws generalizing values files with
  | nil => exact h slot
  | cons w ws ih => exact ih (holdsLast_run h w)

theorem readable_of_last {slot : Slot} {v : ShortValue} {files : Files}
    (hcpp : lower slot.method.text = "cpp".toList) (hfound : slot.Found dir)
    (hw : d.writable (slot.path dir) = true) (hp : (payload v.value).isSome)
    (h : HoldsLast d env dir start slot (some v) (files (slot.path dir))) :
    readable d files (slot.path dir) = some (retained v.value) := by
  obtain ⟨old, hold⟩ := h
  have hwritten : writtenFormat env slot.method.text = some .cpp := by
    unfold writtenFormat
    rw [if_neg slot.method.ne_nil, if_pos hcpp]
  have hread : readFormat (slot.path dir) = .cpp := by
    have hformat := formatOf_of_cpp hcpp
    unfold formatOf at hformat
    unfold readFormat
    rw [(Slot.survives hcpp hfound).2]
    simp only [hformat, ite_self]
  rcases rcompssUnserialize_rcompssSerialize d env v (slot.path dir) slot.method.text old hw
    hwritten hread with ⟨-, content, hrun, hback⟩ | ⟨hnone, -⟩
  · rw [hrun] at hold
    rw [readable, hold, hback]
    rfl
  · rw [hnone] at hp
    contradiction

/-- After any payloads have been written to a master directory, in any order and over whatever
was there, each file that was not written is as it was, and each whose method is `cpp` and whose
path survives its transport gives back what the format retains of the value last written to it. -/
theorem disk_keeps_last_payloads (d : Packages) (env : Option Text) (dir : Text) (files : Files)
    (ws : List PayloadWrite) (slot : Slot) :
    (steps PayloadWrite.keep ws (fun _ => none) slot = none →
      steps (PayloadWrite.run d env dir) ws files (slot.path dir) = files (slot.path dir)) ∧
    ∀ v, steps PayloadWrite.keep ws (fun _ => none) slot = some v →
      lower slot.method.text = "cpp".toList → slot.Found dir →
      d.writable (slot.path dir) = true → (payload v.value).isSome → ∀ q,
        readable d (steps (PayloadWrite.run d env dir) ws files)
          (stripValueSuffix (q ++ ':' :: slot.path dir)) = some (retained v.value) := by
  have hlast : HoldsLast d env dir files slot (steps PayloadWrite.keep ws (fun _ => none) slot)
      (steps (PayloadWrite.run d env dir) ws files (slot.path dir)) := by
    apply holdsLast_steps
    exact fun _ => rfl
  constructor
  · intro hnone
    rw [hnone] at hlast
    exact hlast
  · intro v hsome hcpp hfound hw hp q
    rw [hsome] at hlast
    rw [(Slot.survives hcpp hfound).1]
    exact readable_of_last hcpp hfound hw hp hlast

end

/-- A disk on which everything can be written, and none of the packages. -/
def plainPackages : Packages where
  writable _ := true
  coerce _ _ x := .ok x
  loads _ := false
  qsave _ := throw ⟨.rcpp, "no package".toList⟩
  qread _ := .error ⟨.rcpp, "no package".toList⟩
  mvlWrite _ := throw ⟨.rcpp, "no package".toList⟩
  mvlRead _ := .error ⟨.rcpp, "no package".toList⟩

/-- `1:2`. -/
def oneTwo : ShortValue := ⟨.atom (.int [1, 2]) [], by decide, by decide⟩

/-- `TRUE`. -/
def trueValue : ShortValue := ⟨.atom (.lgl [1]) [], by decide, by decide⟩

/-- An atomic vector without attributes comes through the format whole. -/
theorem bare_retained (d : Atomic) : retained (.atom d []) = .atom d [] := by
  rw [retained_plain rfl, retainedValue]

theorem bare_payload (d : Atomic) : (payload (.atom d [])).isSome = true := by
  rw [payload_plain rfl, payloadValue]
  rfl

theorem cpp_ne_nil : "cpp".toList ≠ [] := by decide

theorem cpp_dashFree : '-' ∉ "cpp".toList := by decide

/-- The argument `x` of a first call. -/
def firstArgument : Slot :=
  .argument ⟨⟨"cpp".toList, cpp_ne_nil, cpp_dashFree⟩, "x".toList, 0, sampleUID⟩

/-- A value over another one. -/
theorem second_value_read_back :
    readable plainPackages (steps (PayloadWrite.run plainPackages none "/tmp".toList)
      [⟨firstArgument, trueValue⟩, ⟨firstArgument, oneTwo⟩] fun _ => none)
      (stripValueSuffix ("node".toList ++ ':' :: firstArgument.path "/tmp".toList)) =
        some (retained oneTwo.value) := by
  have hlast : steps PayloadWrite.keep [⟨firstArgument, trueValue⟩, ⟨firstArgument, oneTwo⟩]
      (fun _ => none) firstArgument = some oneTwo := by simp [steps, PayloadWrite.keep]
  have hfound : firstArgument.Found "/tmp".toList := ⟨by decide, .inl (by decide)⟩
  have hp : (payload oneTwo.value).isSome := by
    rw [oneTwo, payload_plain rfl, payloadValue]
    rfl
  exact (disk_keeps_last_payloads plainPackages none "/tmp".toList (fun _ => none) _ _).2 oneTwo
    hlast (by decide) hfound rfl hp "node".toList

end RCompss.Payload
