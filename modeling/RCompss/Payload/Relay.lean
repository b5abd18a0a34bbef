import RCompss.Payload.Disk
import RCompss.Serialization.NormalForm

/-! A value handed on from task to task: written, read, and written again to the next file. -/
namespace RCompss.Payload
open RCompss.Library RCompss.Serialization

/-- A file that a value is handed on in. -/
structure Hop where
  path : Text
  method : Text

/-- The file is written over whatever is there, and read; `none` when one of the two raises. -/
def Hop.pass (d : Packages) (env : Option Text) (state : Files × SEXP) (hop : Hop) :
    Option (Files × SEXP) :=
  match exec (rcompssSerialize d env state.2 hop.path hop.method) (state.1 hop.path) with
  | (.ok _, content) => (rcompssUnserialize d hop.path content).toOption.map fun back =>
      (Function.update state.1 hop.path content, back)
  | (.error _, _) => none

def relay (d : Packages) (env : Option Text) (hops : List Hop) (state : Files × SEXP) :
    Option (Files × SEXP) :=
  hops.foldlM (Hop.pass d env) state

/-- The file can be written, and both ends take the format of the binding itself. -/
structure Hop.OwnFormat (d : Packages) (env : Option Text) (hop : Hop) : Prop where
  writable : d.writable hop.path = true
  written : writtenFormat env hop.method = some .cpp
  read : readFormat hop.path = .cpp

section
variable {d : Packages} {env : Option Text} {v : ShortValue} {p : Payload} {hop : Hop}
  {files : Files}

/-- One file leaves of a value what the format retains, in the bytes of its payload. -/
theorem Hop.OwnFormat.pass_eq (h : hop.OwnFormat d env) (hp : payload v.value = some p) :
    hop.pass d env (files, v.value) =
      some (Function.update files hop.path (some (fileBytes kVersion p)), retained v.value) := by
  unfold Hop.pass
  rw [rcompssSerialize_cpp h.written, exec_tryCatch]
  rcases exec_serializeFile h.writable v.value (files hop.path) with
    ⟨q, hq, hrun⟩ | ⟨hnone, -⟩
  · cases hp.symm.trans hq
    simp only [hrun]
    rw [rcompssUnserialize_cpp h.read, unserializeBytes_written d v hp]
    rfl
  · rw [hp] at hnone
    cases hnone

/-- What a file of the binding's own format gives back of a value. -/
def carried (d : Packages) (object : SEXP) : Option SEXP :=
  (payload object).bind fun p => (unserializeBytes d (fileBytes kVersion p)).toOption

theorem Hop.OwnFormat.transported_eq (h : hop.OwnFormat d env) (object : SEXP) :
    transported d env hop.path hop.method object = carried d object := by
  unfold transported carried
  rw [rcompssSerialize_cpp h.written, exec_tryCatch]
  rcases exec_serializeFile h.writable object none with ⟨p, hp, hrun⟩ | ⟨hp, left, hrun⟩
  · simp only [hrun, hp, Option.bind_some]
    rw [rcompssUnserialize_cpp h.read, toOption_mapError]
  · simp only [hrun, hp, Option.bind_none]
    rfl

theorem carried_eq (d : Packages) (v : ShortValue) (h : (payload v.value).isSome = true) :
    carried d v.value = some (retained v.value) := by
  obtain ⟨p, hp⟩ := Option.isSome_iff_exists.mp h
  unfold carried
  rw [hp, Option.bind_some, unserializeBytes_written d v hp]
  rfl

/-- The first file takes off what the format does not carry, the others nothing. -/
theorem relay_written (hp : payload v.value = some p) (hops : List Hop)
    (h : ∀ hop ∈ hops, hop.OwnFormat d env) :
    relay d env hops (files, v.value) =
      some (fun path => if path ∈ hops.map Hop.path then some (fileBytes kVersion p)
        else files path, if hops = [] then v.value else retained v.value) := by
  induction hops generalizing files v with
  | nil => simp [relay]
  | cons hop hops ih =>
    have hpass : hop.pass d env (files, v.value) =
        some (Function.update files hop.path (some (fileBytes kVersion p)), retained v.value) :=
      (h hop List.mem_cons_self).pass_eq hp
    have hfirst : relay d env (hop :: hops) (files, v.value) = relay d env hops
        (Function.update files hop.path (some (fileBytes kVersion p)), v.retained.value) := by
      unfold relay
      rw [List.foldlM_cons, hpass]
      rfl
    have hagain : retained v.retained.value = v.retained.value := retained_retained_of_payload hp
    have hlater := @ih v.retained (Function.update files hop.path (some (fileBytes kVersion p)))
      (payload_retained hp) fun hop hhop => h hop (List.mem_cons_of_mem _ hhop)
    rw [hagain, ite_self] at hlater
    rw [hfirst, hlater, if_neg (List.cons_ne_nil hop hops)]
    congr 2
    funext path
    by_cases hpath : path = hop.path
    · simp [hpath]
    · simp [hpath, Function.update_of_ne]

end

/-- However many files a value is handed on in, all of them get the same bytes, and what is read
from the last is what was read from the first: nothing is lost after it. -/
theorem relay_keeps_bytes (d : Packages) (env : Option Text) (v : ShortValue) (bytes : Bytes)
    (hwrite : exec (serializeSEXP v.value) (⟨[]⟩ : ByteFile) = (.ok (), ⟨bytes⟩))
    (files : Files) (first : Hop) (hops : List Hop)
    (h : ∀ hop ∈ first :: hops, hop.OwnFormat d env) :
    relay d env (first :: hops) (files, v.value) =
      some (fun path => if path ∈ (first :: hops).map Hop.path then some bytes else files path,
        retained v.value) := by
  obtain ⟨p, hp⟩ : ∃ p, payload v.value = some p := by
    cases hp : payload v.value with
    | some p => exact ⟨p, rfl⟩
    | none =>
      obtain ⟨out, hout⟩ := serializeSEXP_unsupported hp ⟨[]⟩
      rw [hwrite] at hout
      cases hout
  have hbytes : fileBytes kVersion p = bytes := by
    have hfile := serializeSEXP_writes hp ⟨[]⟩
    rw [hwrite] at hfile
    simpa using hfile.symm
  rw [relay_written hp (first :: hops) h, hbytes, if_neg (List.cons_ne_nil first hops)]

/-- `c(a = 1L)` comes back from two files without its name, and both hold the same. -/
theorem named_integer_relayed :
    relay plainPackages none
        [⟨"/tmp/cpp-x".toList, "cpp".toList⟩, ⟨"/tmp/cpp-y".toList, "CPP".toList⟩]
        (fun _ => none, namedInteger.value) =
      some (fun path => if path ∈ ["/tmp/cpp-x".toList, "/tmp/cpp-y".toList]
        then some (fileBytes kVersion (.atom (.int [1]))) else none, .atom (.int [1]) []) := by
  have hp : payload namedInteger.value = some (.atom (.int [1])) := by
    rw [payload_plain rfl, namedInteger, payloadValue]
  have hwrite := serializeSEXP_writes hp ⟨[]⟩
  have hown : ∀ hop ∈ [⟨"/tmp/cpp-x".toList, "cpp".toList⟩, ⟨"/tmp/cpp-y".toList, "CPP".toList⟩],
      Hop.OwnFormat plainPackages none hop := by
    intro hop hhop
    simp only [List.mem_cons, List.not_mem_nil, or_false] at hhop
    rcases hhop with rfl | rfl
    · exact ⟨rfl, by decide, by decide⟩
    · exact ⟨rfl, by decide, by decide⟩
  have hrelay := relay_keeps_bytes plainPackages none namedInteger _ hwrite (fun _ => none) _ _ hown
  rwa [retained_namedInteger] at hrelay

end RCompss.Payload
