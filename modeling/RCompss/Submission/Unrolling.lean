import RCompss.Library.ReservedVector
import RCompss.Submission.Marshalling

/-! `process_task`: the parameters of a task in one array of pointers, nine for each of them, and
what the runtime reads there. -/
namespace RCompss.Submission
open RCompss.Library

/-- The arguments of `process_task` that describe parameters. -/
structure TaskParameters where
  values : List SEXP
  names : List CharSXP
  compssTypes : List (BitVec 32)
  compssDirections : List (BitVec 32)
  compssStreams : List (BitVec 32)
  compssPrefixes : List CharSXP
  contentTypes : List CharSXP
  weights : List CharSXP
  keepRenames : List (BitVec 32)

/-- The vectors of R that are not copied. -/
inductive IntVec where
  | compssTypes | compssDirections | compssStreams | keepRenames
  deriving DecidableEq

/-- The vectors that strings are copied to. -/
inductive StrVec where
  | prefixStrVec | nameStrVec | contentStrVec | weightStrVec | valuesStrVec
  deriving DecidableEq

inductive Pointer where
  /-- To an element of a vector of R. -/
  | int (v : IntVec) (i : ℕ)
  /-- To a block from `new`. -/
  | block (j : ℕ)
  /-- To an element of `prefix_charp` and so on. -/
  | charp (v : StrVec) (i : ℕ)

/-- The address of a string's characters, by the string. -/
structure CharPointer where
  vector : StrVec
  slot : Slot

inductive Block where
  | unset (size : ℕ)
  | int (w : BitVec 32)
  | double (w : BitVec 64)

/-- `r_cast`: the number that R makes of one of another type. -/
structure NumberCast where
  integer : SEXP → BitVec 32
  double : SEXP → BitVec 64

/-- `int(v)`, where `v` is a single number. -/
def NumberCast.int (c : NumberCast) : SEXP → BitVec 32
  | .atom (.lgl (w :: _)) _ | .atom (.int (w :: _)) _ => w
  | v => c.integer v

/-- `double(v)`, where `v` is a single number. -/
def NumberCast.real (c : NumberCast) : SEXP → BitVec 64
  | .atom (.real (w :: _)) _ => w
  | v => c.double v

/-- `Rcpp::as<std::string>(v)`, where `v` is a single string. -/
def singleString : SEXP → RString
  | .atom (.str (t :: _)) _ => stringOf t
  | _ => ⟨[], by decide, by decide⟩

def numFields : ℕ := 9

/-- The local variables of `process_task`. -/
structure Unrolling where
  unrolledParameters : List (Option Pointer)
  pValue : List (Option Pointer)
  strVec : StrVec → ReservedVector RString
  charp : StrVec → List (Option CharPointer)
  heap : List Block
  numOfStringArgs : ℕ

namespace Unrolling

def start (numPars : ℕ) : Unrolling where
  unrolledParameters := List.replicate (numFields * numPars) none
  pValue := List.replicate numPars none
  strVec _ := ReservedVector.empty.reserve numPars
  charp _ := List.replicate numPars none
  heap := []
  numOfStringArgs := 0

/-- `unrolled_parameters[num_fields * i + k] = p`. -/
def setField (m : Unrolling) (i k : ℕ) (p : Option Pointer) : Unrolling :=
  { m with unrolledParameters := m.unrolledParameters.set (numFields * i + k) p }

/-- A new block under `p_value[i]`, with what is written there. -/
def newBlock (m : Unrolling) (i : ℕ) (b : Block) : Unrolling :=
  { m with
    heap := m.heap ++ [b]
    pValue := m.pValue.set i (some (.block m.heap.length)) }

/-- A copy of `text` at the end of a vector, and the address of the string at `index` as the
`i`-th of its C strings. -/
def storeString (m : Unrolling) (v : StrVec) (index i : ℕ) (text : RString) :
    Except Failure Unrolling :=
  match ((m.strVec v).pushBack text).slot? index with
  | some slot => .ok { m with
      strVec := Function.update m.strVec v ((m.strVec v).pushBack text)
      charp := Function.update m.charp v ((m.charp v).set i (some ⟨v, slot⟩)) }
  | none => .error .undefined

/-- The value of a parameter under `p_value[i]`. -/
def storeValue (m : Unrolling) (c : NumberCast) (i : ℕ) (value : SEXP) (type : BitVec 32) :
    Except Failure Unrolling :=
  if type = 0 ∨ type = 4 then do
    asNumber "integer" (.value value)
    return m.newBlock i (.int (c.int value))
  else if type = 7 then do
    asNumber "double" (.value value)
    return m.newBlock i (.double (c.real value))
  else if type = 8 ∨ type = 10 then do
    asString (.value value)
    -- the block made for the characters is not used
    let m := m.newBlock i (.unset ((singleString value).bytes.length + 1))
    let m ← m.storeString .valuesStrVec m.numOfStringArgs i (singleString value)
    return { m with
      pValue := m.pValue.set i (some (.charp .valuesStrVec i))
      numOfStringArgs := m.numOfStringArgs + 1 }
  else
    .error .undefined

/-- A text of a parameter as its `k`-th field. -/
def storeText (m : Unrolling) (v : StrVec) (k i : ℕ) (texts : List CharSXP) :
    Except Failure Unrolling := do
  match texts[i]? with
  | some text =>
      let m ← m.storeString v i i (stringOf text)
      return m.setField i k (some (.charp v i))
  | none => throw .undefined

/-- One round of the loop. -/
def round (m : Unrolling) (c : NumberCast) (t : TaskParameters) (i : ℕ) :
    Except Failure Unrolling := do
  match t.values[i]?, t.compssTypes[i]? with
  | some value, some type =>
      let m ← m.storeValue c i value type
      let m := m.setField i 0 (m.pValue[i]?).join
      let m := m.setField i 1 (some (.int .compssTypes i))
      let m := m.setField i 2 (some (.int .compssDirections i))
      let m := m.setField i 3 (some (.int .compssStreams i))
      let m ← m.storeText .prefixStrVec 4 i t.compssPrefixes
      let m ← m.storeText .nameStrVec 5 i t.names
      let m ← m.storeText .contentStrVec 6 i t.contentTypes
      let m ← m.storeText .weightStrVec 7 i t.weights
      return m.setField i 8 (some (.int .keepRenames i))
  | _, _ => throw .undefined

/-- The rounds from the `i`-th on. -/
def rounds (c : NumberCast) (t : TaskParameters) (m : Unrolling) (i : ℕ) :
    ℕ → Except Failure Unrolling
  | 0 => .ok m
  | n + 1 => do
      let m ← m.round c t i
      rounds c t m (i + 1) n

end Unrolling

/-- The array that `process_task` passes to `GS_ExecuteTaskNew`, and the memory behind it. -/
def TaskParameters.unroll (t : TaskParameters) (c : NumberCast) : Except Failure Unrolling :=
  Unrolling.rounds c t (Unrolling.start t.values.length) 0 t.values.length

inductive Value where
  | int (w : BitVec 32)
  | double (w : BitVec 64)
  | string (bytes : Bytes)
  deriving DecidableEq

structure Parameter where
  value : Value
  type : BitVec 32
  direction : BitVec 32
  stream : BitVec 32
  prefixText : Bytes
  name : Bytes
  content : Bytes
  weight : Bytes
  keepRename : BitVec 32
  deriving DecidableEq

/-- A value as its type code has it. -/
def valueUnder (c : NumberCast) (value : SEXP) (type : BitVec 32) : Option Value :=
  if type = 0 ∨ type = 4 then some (.int (c.int value))
  else if type = 7 then some (.double (c.real value))
  else if type = 8 ∨ type = 10 then some (.string (singleString value).bytes)
  else none

/-- Each vector is at least as long as the list of values. -/
structure MetadataLong (t : TaskParameters) : Prop where
  names : t.values.length ≤ t.names.length
  compssTypes : t.values.length ≤ t.compssTypes.length
  compssDirections : t.values.length ≤ t.compssDirections.length
  compssStreams : t.values.length ≤ t.compssStreams.length
  compssPrefixes : t.values.length ≤ t.compssPrefixes.length
  contentTypes : t.values.length ≤ t.contentTypes.length
  weights : t.values.length ≤ t.weights.length
  keepRenames : t.values.length ≤ t.keepRenames.length

namespace TaskParameters

/-- The `i`-th parameter. -/
def parameter (t : TaskParameters) (c : NumberCast) (i : ℕ) : Option Parameter := do
  let type ← t.compssTypes[i]?
  return {
    value := ← valueUnder c (← t.values[i]?) type
    type := type
    direction := ← t.compssDirections[i]?
    stream := ← t.compssStreams[i]?
    prefixText := (stringOf (← t.compssPrefixes[i]?)).bytes
    name := (stringOf (← t.names[i]?)).bytes
    content := (stringOf (← t.contentTypes[i]?)).bytes
    weight := (stringOf (← t.weights[i]?)).bytes
    keepRename := ← t.keepRenames[i]? }

def ints (t : TaskParameters) : IntVec → List (BitVec 32)
  | .compssTypes => t.compssTypes
  | .compssDirections => t.compssDirections
  | .compssStreams => t.compssStreams
  | .keepRenames => t.keepRenames

end TaskParameters

namespace Unrolling

/-- `*(int *)p`. -/
def loadInt (m : Unrolling) (t : TaskParameters) : Pointer → Option (BitVec 32)
  | .int v i => (t.ints v)[i]?
  | .block j => match m.heap[j]? with
    | some (.int w) => some w
    | _ => none
  | .charp .. => none

/-- `*(double *)p`. -/
def loadDouble (m : Unrolling) : Pointer → Option (BitVec 64)
  | .block j => match m.heap[j]? with
    | some (.double w) => some w
    | _ => none
  | _ => none

/-- The characters up to the NUL at `*(char **)p`. -/
def loadString (m : Unrolling) : Pointer → Option Bytes
  | .charp v i => do
      let p ← ((m.charp v)[i]?).join
      let text ← (m.strVec p.vector).load p.slot
      return (text.bytes ++ [0]).takeWhile (· ≠ 0)
  | _ => none

def loadValue (m : Unrolling) (t : TaskParameters) (type : BitVec 32) (p : Pointer) :
    Option Value :=
  if type = 0 ∨ type = 4 then (m.loadInt t p).map .int
  else if type = 7 then (m.loadDouble p).map .double
  else if type = 8 ∨ type = 10 then (m.loadString p).map .string
  else none

def field (m : Unrolling) (i k : ℕ) : Option Pointer :=
  (m.unrolledParameters[numFields * i + k]?).join

/-- The `i`-th parameter as the runtime reads it. -/
def readParameter (m : Unrolling) (t : TaskParameters) (i : ℕ) : Option Parameter := do
  let type ← m.loadInt t (← m.field i 1)
  return {
    value := ← m.loadValue t type (← m.field i 0)
    type := type
    direction := ← m.loadInt t (← m.field i 2)
    stream := ← m.loadInt t (← m.field i 3)
    prefixText := ← m.loadString (← m.field i 4)
    name := ← m.loadString (← m.field i 5)
    content := ← m.loadString (← m.field i 6)
    weight := ← m.loadString (← m.field i 7)
    keepRename := ← m.loadInt t (← m.field i 8) }

end Unrolling

end RCompss.Submission
