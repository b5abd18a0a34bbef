import RCompss.Executor.Process
import RCompss.Payload.Transport
import RCompss.Serialization.Retained

/-! The payload files: `rcompss_serialize` writes them, `rcompss_unserialize` reads them. -/
namespace RCompss.Payload
open RCompss.Library RCompss.Serialization RCompss.Executor

/-- The content of the file at a path; `none` for no file. -/
abbrev Files := Text → Option Bytes

/-- The disk, R, and the packages `qs` and `RMVL`. What a package writes to a file may depend on
what was there, and stays when it raises. -/
structure Packages where
  writable : Text → Bool
  coerce : SEXP.Coercion
  /-- `requireNamespace`. -/
  loads : SerFormat → Bool
  qsave : SEXP → Exec (Option Bytes) CppException Unit
  qread : Bytes → Except CppException SEXP
  mvlWrite : SEXP → Exec (Option Bytes) CppException Unit
  mvlRead : Option Bytes → Except CppException SEXP

/-- What leaves `rcompss_unserialize`: a C++ exception, or an error of R itself, which passes
the handlers of C++ by. -/
inductive Raised where
  | exception (e : CppException)
  | rError (message : Text)
  deriving DecidableEq

/-- `Rcpp::stop`. -/
def stop (message : Text) : CppException := ⟨.rcpp, message⟩

/-- Computations on the file at one path. -/
abbrev FileM := Exec (Option Bytes) CppException

/-- `Serialization::serializeSEXP`, which opens the file anew. -/
def serializeFile (d : Packages) (object : SEXP) (filepath : Text) : FileM Unit :=
  if d.writable filepath then do
    let (result, out) := exec (serializeSEXP object) (⟨[]⟩ : ByteFile)
    set (some out.bytes)
    match result with
    | .ok _ => return
    | .error e => throw ⟨.std, e.what.toList⟩
  else throw ⟨.std, "Failed to open file for serialization: ".toList ++ filepath⟩

/-- The branch for `qs`. What none of the handlers knows is raised again inside one of them. -/
def serializeQs (d : Packages) (object : SEXP) (filepath : Text) : FileM Unit := do
  if !d.loads .qs then
    throw (stop "Failed to load qs package namespace. Is qs installed?".toList)
  tryCatch (do
    d.qsave object
    if (← get).isNone then
      throw (stop ("qs::qsave did not create file: ".toList ++ filepath))) fun e =>
    throw (if e.cls = .unknown then stop "Unknown error calling qs::qsave".toList else e)

/-- The branch for `RMVL`, with its second try. -/
def serializeMvl (d : Packages) (object : SEXP) : FileM Unit :=
  tryCatch (d.mvlWrite object) fun e =>
    if e.cls = .rcpp then do
      if !d.loads .RMVL then
        throw (stop "Failed to load RMVL package namespace".toList)
      d.mvlWrite object
    else throw e

/-- `rcompss_serialize`. -/
def rcompssSerialize (d : Packages) (env : Option Text) (object : SEXP)
    (filepath serMethod : Text) : FileM Unit :=
  tryCatch (
    let method := if serMethod = [] then getDefaultSerializationMethod env else serMethod
    if lower method = "cpp".toList then serializeFile d object filepath
    else if lower method = "qs".toList then serializeQs d object filepath
    else if lower method = "rmvl".toList then serializeMvl d object
    else throw (stop ("Unknown serialization method: '".toList ++ method ++
      "'. Valid methods: cpp, qs, RMVL".toList))) fun e =>
    throw (if e.cls = .unknown then e
      else stop ("Failed to serialize object: ".toList ++ e.what))

/-- `Serialization::unserializeSEXP` of a file that opens. -/
def unserializeBytes (d : Packages) (bytes : Bytes) : Except Raised SEXP :=
  match (exec (unserializeSEXP d.coerce) (.open bytes)).1 with
  | .ok v => .ok v
  | .error (.rError message) => .error (.rError message.toList)
  | .error .embeddedNul => .error (.rError SerError.embeddedNul.what.toList)
  | .error e => .error (.exception ⟨.std, e.what.toList⟩)

/-- The call of `qs::qread` and its handlers. -/
def unserializeQs (d : Packages) (filepath : Text) (content : Option Bytes) :
    Except CppException SEXP :=
  if !d.loads .qs then
    .error (stop "Failed to load qs package namespace. Is qs installed?".toList)
  else match content with
  | none => .error (stop ("File does not exist or cannot be opened: ".toList ++ filepath))
  | some bytes =>
      match d.qread bytes with
      | .ok v => .ok v
      | .error e =>
          .error (if e.cls = .unknown then stop "Unknown error calling qs::qread".toList else e)

def unserializeMvl (d : Packages) (content : Option Bytes) : Except CppException SEXP :=
  if !d.loads .RMVL then
    .error (stop "Failed to load RMVL package namespace. Is RMVL installed?".toList)
  else d.mvlRead content

/-- The handlers at the end of `rcompss_unserialize`. -/
def unserializeFailure : Raised → Raised
  | .exception e => .exception (stop ("Failed to unserialize object: ".toList ++
      if e.cls = .unknown then "unknown error".toList else e.what))
  | .rError message => .rError message

/-- `rcompss_unserialize` of a path with this content. Whatever header a file has, the branch
for `cpp` goes on to read it. -/
def rcompssUnserialize (d : Packages) (filepath : Text) (content : Option Bytes) :
    Except Raised SEXP :=
  let method := extractSerializationMethod filepath
  Except.mapError unserializeFailure (
    if method = "cpp".toList then
      match content with
      | some bytes => unserializeBytes d bytes
      | none => .error (.exception (stop ("Failed to open file for verification: ".toList ++
          filepath)))
    else if method = "qs".toList then
      Except.mapError .exception (unserializeQs d filepath content)
    else if method = "RMVL".toList then
      Except.mapError .exception (unserializeMvl d content)
    else
      match content with
      | some bytes => unserializeBytes d bytes
      | none => .error (.exception ⟨.std,
          "Failed to open file for unserialization: ".toList ++ filepath⟩))

/-- What can be read at the paths of a disk. -/
def readable (d : Packages) (files : Files) (path : Text) : Option SEXP :=
  (rcompssUnserialize d path (files path)).toOption

/-- What a file gives back of an object written to it when there was none. -/
def transported (d : Packages) (env : Option Text) (path method : Text) (object : SEXP) :
    Option SEXP :=
  match exec (rcompssSerialize d env object path method) none with
  | (.ok _, content) => (rcompssUnserialize d path content).toOption
  | (.error _, _) => none

/-- What a file gives back does not depend on what it held before. -/
def Overwrites (d : Packages) (env : Option Text) (path method : Text) : Prop :=
  ∀ object old content, exec (rcompssSerialize d env object path method) old = (.ok (), content) →
    (rcompssUnserialize d path content).toOption = transported d env path method object

@[simp] theorem toOption_mapError {ε ε' α : Type} (f : ε → ε') (x : Except ε α) :
    (Except.mapError f x).toOption = x.toOption := by
  cases x <;> rfl

/-- The format that is written decides the branch. -/
theorem rcompssSerialize_cpp {d : Packages} {env : Option Text} {method : Text}
    (h : writtenFormat env method = some .cpp) (object : SEXP) (path : Text) :
    rcompssSerialize d env object path method = tryCatch (serializeFile d object path) fun e =>
      throw (if e.cls = .unknown then e
        else stop ("Failed to serialize object: ".toList ++ e.what)) := by
  unfold writtenFormat at h
  unfold rcompssSerialize
  generalize (if method = [] then getDefaultSerializationMethod env else method) = m at h ⊢
  by_cases hcpp : lower m = "cpp".toList
  · simp only [if_pos hcpp]
  · simp only [if_neg hcpp] at h
    split_ifs at h <;> cases h

/-- The format that is read decides the reader. -/
theorem rcompssUnserialize_cpp {path : Text} (h : readFormat path = .cpp) (d : Packages)
    (bytes : Bytes) : rcompssUnserialize d path (some bytes) =
      Except.mapError unserializeFailure (unserializeBytes d bytes) := by
  unfold readFormat at h
  unfold rcompssUnserialize
  simp only at h ⊢
  split at h
  next hcpp => rw [if_pos hcpp]
  next hcpp =>
    split at h
    · cases h
    next hqs =>
      split at h
      · cases h
      next hmvl => rw [if_neg hcpp, if_neg hqs, if_neg hmvl]

/-- An object goes to a file whole, or something of a file is left without it. -/
theorem exec_serializeFile {d : Packages} {path : Text} (hw : d.writable path = true)
    (object : SEXP) (old : Option Bytes) :
    (∃ p, payload object = some p ∧
        exec (serializeFile d object path) old = (.ok (), some (fileBytes kVersion p))) ∨
      (payload object = none ∧ ∃ left, exec (serializeFile d object path) old =
        (.error ⟨.std, SerError.unsupportedType.what.toList⟩, some left)) := by
  unfold serializeFile
  rw [if_pos hw]
  rcases hp : payload object with _ | p
  · obtain ⟨out, hout⟩ := serializeSEXP_unsupported hp ⟨[]⟩
    refine .inr ⟨rfl, out.bytes, ?_⟩
    rw [hout]
    rfl
  · refine .inl ⟨p, rfl, ?_⟩
    rw [serializeSEXP_writes hp ⟨[]⟩]
    rfl

theorem unserializeBytes_written (d : Packages) (v : ShortValue) {p : Payload}
    (hp : payload v.value = some p) :
    unserializeBytes d (fileBytes kVersion p) = .ok (retained v.value) := by
  unfold unserializeBytes
  rw [unserializeSEXP_written v d.coerce hp]

/-- Over whatever was there an object is written that reads back as what the format retains
of it, or the writer raises and the object is none that the format knows. -/
theorem rcompssUnserialize_rcompssSerialize (d : Packages) (env : Option Text) (v : ShortValue)
    (path method : Text) (old : Option Bytes) (hw : d.writable path = true)
    (hwritten : writtenFormat env method = some .cpp) (hread : readFormat path = .cpp) :
    ((payload v.value).isSome ∧ ∃ content,
        exec (rcompssSerialize d env v.value path method) old = (.ok (), content) ∧
          rcompssUnserialize d path content = .ok (retained v.value)) ∨
      (payload v.value = none ∧ ∃ content,
        exec (rcompssSerialize d env v.value path method) old =
          (.error (stop ("Failed to serialize object: ".toList ++
            SerError.unsupportedType.what.toList)), content)) := by
  rw [rcompssSerialize_cpp hwritten, exec_tryCatch]
  rcases exec_serializeFile hw v.value old with ⟨p, hp, hrun⟩ | ⟨hp, left, hrun⟩
  · refine .inl ⟨by rw [hp]; rfl, some (fileBytes kVersion p), by rw [hrun], ?_⟩
    rw [rcompssUnserialize_cpp hread, unserializeBytes_written d v hp]
    rfl
  · refine .inr ⟨hp, some left, ?_⟩
    rw [hrun]
    rfl

/-- What was in the file leaves no trace. -/
theorem overwrites_cpp (d : Packages) {env : Option Text} {method : Text}
    (hwritten : writtenFormat env method = some .cpp) (path : Text) :
    Overwrites d env path method := by
  intro object old content hrun
  unfold transported
  rw [rcompssSerialize_cpp hwritten, exec_tryCatch] at hrun ⊢
  by_cases hw : d.writable path = true
  · rcases exec_serializeFile hw object old with ⟨p, hp, hold⟩ | ⟨hp, left, hold⟩
    · rw [hold] at hrun
      cases hrun
      rcases exec_serializeFile hw object none with ⟨p', hp', hnew⟩ | ⟨hp', -⟩
      · rw [hp] at hp'
        cases hp'
        rw [hnew]
      · rw [hp] at hp'
        cases hp'
    · rw [hold] at hrun
      cases hrun
  · unfold serializeFile at hrun
    rw [if_neg hw] at hrun
    cases hrun

end RCompss.Payload
