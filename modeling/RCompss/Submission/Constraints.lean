import RCompss.Submission.TaskDecorator

/-! The constraints of a decorated function: as they are stored, as the register marker
spells them, and as the runtime gets them. -/
namespace RCompss.Submission
open RCompss.Payload

/-- A field of a processor record: a vector of any length. -/
inductive FieldValue where
  | null
  | text (elements : List (Option Text))
  | int (elements : List ℤ)
  /-- Doubles, as `as.character` and as `std::to_string` print them. -/
  | real (elements : List (Text × Text))
  | lgl (elements : List (Option Bool))
  deriving DecidableEq

/-- An entry of a processors list; a scalar is given as `as.character` prints it. -/
inductive ProcessorEntry where
  | processor (fields : List (Text × FieldValue))
  /-- A list whose names are `NULL`, as those of `list()` are. -/
  | unnamed
  | scalar (asCharacter : Text)
  deriving DecidableEq

/-- A stored constraint: strings (`none` is `NA`), or a list of processors. -/
inductive ConstraintValue where
  | text (elements : List (Option Text))
  | list (entries : List ProcessorEntry)
  deriving DecidableEq

abbrev Constraints := List (Text × ConstraintValue)

/-- What `constraint` is given under a name. -/
inductive ConstraintArg where
  | null
  | character (elements : List (Option Text))
  /-- Numbers, as `as.character` prints them. -/
  | numeric (elements : List (Option Text))
  | logical (elements : List (Option Bool))
  | list (entries : List ProcessorEntry)

/-- `NA` prints as its name. -/
def naText (t : Option Text) : Text := t.getD "NA".toList

/-- `as.character` and `std::to_string` of an integer. -/
def decimalInt (n : ℤ) : Text := if n < 0 then '-' :: decimal n.natAbs else decimal n.natAbs

def naInteger : ℤ := -2 ^ 31

/-- `as.character` of a field. -/
def FieldValue.asCharacter : FieldValue → List Text
  | .null => []
  | .text elements => elements.map naText
  | .int elements => elements.map fun n => if n = naInteger then "NA".toList else decimalInt n
  | .real elements => elements.map Prod.fst
  | .lgl elements => elements.map fun
    | some true => "TRUE".toList
    | some false => "FALSE".toList
    | none => "NA".toList

/-- `Rcpp::as<std::string>`. -/
def elementAsString : List (Option Text) → Except Failure Text
  | [t] => .ok (naText t)
  | ts => .error (.raised ("Expecting a single string value: [type=character; extent=".toList ++
      decimal ts.length ++ "].".toList))

/-- What `Rcpp::as` of a number or a logical raises where there is not one. -/
def notSingle (extent : ℕ) : Failure :=
  .raised ("Expecting a single value: [extent=".toList ++ decimal extent ++ "].".toList)

/-- A field as `rcompss_build_constraint_string` prints it: one element only. -/
def FieldValue.print : FieldValue → Except Failure Text
  | .null => .ok []
  | .text elements => elementAsString elements
  | .int [n] => .ok (decimalInt n)
  | .real [x] => .ok x.2
  | .lgl [some false] => .ok "false".toList
  | .lgl [_] => .ok "true".toList
  | .int ns => .error (notSingle ns.length)
  | .real xs => .error (notSingle xs.length)
  | .lgl bs => .error (notSingle bs.length)

/-- `strsplit(name, "_")`, which drops a final empty piece. -/
def splitUnderscore (name : Text) : List Text :=
  let pieces := name.splitOn '_'
  if pieces.getLast? = some [] then pieces.dropLast else pieces

def capitalize : Text → Text
  | [] => []
  | c :: cs => c.toUpper :: cs

/-- An empty name has no pieces: the loop over `2:0` then pastes five missing ones. -/
def camelCase (name : Text) : Text :=
  match splitUnderscore name with
  | [] => "NANANANANA".toList
  | [_] => name
  | first :: rest => first ++ rest.flatMap capitalize

def storedValue : ConstraintArg → Option ConstraintValue
  | .null => none
  | .character elements | .numeric elements => some (.text elements)
  | .logical [b] => some (.text [b.map fun b => if b then "true".toList else "false".toList])
  | .logical bs =>
      some (.text (bs.map fun b => b.map fun b => if b then "TRUE".toList else "FALSE".toList))
  | .list entries => some (.list entries)

/-- `constraint`: the constraints a function carries afterwards. With nothing given it is
returned as it was. -/
def constraint (stored : Constraints) (args : List (Text × ConstraintArg)) : Constraints :=
  match args.filterMap fun arg => (storedValue arg.2).map fun v => (camelCase arg.1, v) with
  | [] => stored
  | cs => cs

/-- `x[[key]]` on a named list; none is `NULL`. The empty text matches no name. -/
def element {β : Type} (l : List (Text × β)) (key : Text) : Option β :=
  if key = [] then none else l.lookup key

def fieldOrder : List Text :=
  ["processorType", "computingUnits", "name", "speed", "architecture", "propertyName",
    "propertyValue", "internalMemorySize"].map String.toList

/-- `paste0(label, as.character(x))`; an empty vector pastes as an empty string. -/
def pasteLabel (label : Text) (elements : List Text) : List Text :=
  if elements = [] then [label] else elements.map (label ++ ·)

/-- The fields in their fixed order, then the others. -/
def processorSig (fields : List (Text × FieldValue)) : Text :=
  let names := fields.map Prod.fst
  let parts := (fieldOrder.filter (· ∈ names) ++ names.filter (· ∉ fieldOrder)).map fun field =>
    pasteLabel (field ++ ['=']) ((element fields field).getD .null).asCharacter
  List.intercalate [','] parts.flatten

def entrySig : ProcessorEntry → Text
  | .processor fields => processorSig fields
  | .unnamed => []
  | .scalar asCharacter => asCharacter

/-- `paste0` of two vectors, the shorter one recycled, an empty one left out. -/
def paste0 (a b : List Text) : List Text :=
  if a = [] then b
  else if b = [] then a
  else (List.range (max a.length b.length)).map fun i =>
    a.getD (i % a.length) [] ++ b.getD (i % b.length) []

/-- What the signature says of one constraint. -/
def valueSig : ConstraintValue → List Text
  | .text elements => pasteLabel [':'] (elements.map naText)
  | .list entries => [':' :: List.intercalate [';'] (entries.map entrySig)]

/-- The constraint signature before it is sanitized; a vector where a value is one. `NULL` is
pasted as an empty vector. -/
def constraintSig (cs : Constraints) : List Text :=
  (cs.map fun c => valueSig ((element cs c.1).getD (.text []))).foldl paste0
    [List.intercalate [','] (cs.map Prod.fst)]

/-- `gsub("[^A-Za-z0-9]", "_", ..)`. -/
def sanitize (t : Text) : Text := t.map fun c => if c.isAlphanum then c else '_'

/-- The marker under which a registration is remembered. `exists` takes one name only. -/
def registerMarker (fName : Text) (cs : Constraints) : Except Failure Text := do
  if cs = [] then
    return "registered_".toList ++ fName
  match constraintSig cs with
  | [sig] => return "registered_".toList ++ fName ++ '_' :: (sanitize sig).take 32
  | _ => throw (.raised "first argument has length > 1".toList)

/-- The name under which a constraint says that the task is local. -/
def isLocalKey (cs : Constraints) : Option Text :=
  ["isLocal".toList, "is_local".toList].find? (· ∈ cs.map Prod.fst)

def implLocal (cs : Constraints) : Except Failure Text := do
  match isLocalKey cs with
  | none => return "False".toList
  | some key =>
      match element cs key with
      | some (.text [some t]) =>
          return if lower t = "true".toList then "True".toList else "False".toList
      | some (.text [none]) => throw (.raised "missing value where TRUE/FALSE needed".toList)
      | some (.text []) => throw (.raised "argument is of length zero".toList)
      | some (.text _) => throw (.raised "the condition has length > 1".toList)
      | _ => return "False".toList

/-- The constraints that are not about locality. -/
def implConstraintSet (cs : Constraints) : Constraints :=
  match isLocalKey cs with
  | none => cs
  | some key => cs.filter (·.1 ≠ key)

def printEntry : ProcessorEntry → Except Failure Text
  | .processor fields => do
      let parts ← fields.mapM fun field => do return field.1 ++ ": ".toList ++ (← field.2.print)
      return List.intercalate ", ".toList parts
  | .unnamed => .error (.raised "Not compatible with STRSXP: [type=NULL].".toList)
  | .scalar _ => .ok []

def printValue : ConstraintValue → Except Failure Text
  | .text elements => elementAsString elements
  | .list entries => do
      let parts ← entries.mapM printEntry
      return "[\x7b".toList ++ List.intercalate "\x7d, \x7b".toList parts ++ "\x7d]".toList

/-- `rcompss_build_constraint_string`. -/
def constraintString (cs : Constraints) : Except Failure Text := do
  let parts ← cs.mapM fun c => do return c.1 ++ ':' :: (← printValue c.2) ++ [';']
  return parts.flatten

end RCompss.Submission
