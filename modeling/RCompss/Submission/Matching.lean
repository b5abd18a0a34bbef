import RCompss.Submission.TaskDecorator

/-! Matching the values of a call to the formals of the decorated function. -/
namespace RCompss.Submission

/-- `is.symbol`; a formal without a default is the empty symbol. -/
def isSymbol : SEXP → Bool
  | .other o _ => o.type = .SYMSXP
  | _ => false

/-- `R_MissingArg`. -/
def missingArg : SEXP := .other ⟨.SYMSXP, "", 1⟩ []

abbrev Arguments := List (Text × SEXP)

/-- `arguments[[i + 1]] <- v` on a pairlist: `NULL` deletes, and past the end the list is
filled up with unnamed `NULL`s. -/
def assignArgument (arguments : Arguments) (i : ℕ) (v : SEXP) : Arguments :=
  if v = .nil then arguments.eraseIdx i
  else if i < arguments.length then arguments.modify i fun arg => (arg.1, v)
  else arguments ++ List.replicate (i - arguments.length) ([], .nil) ++ [([], v)]

/-- Values by position, from position `i` on. -/
def matchPositional (i : ℕ) : List Text → List SEXP → Arguments → Arguments
  | _ :: names, v :: values, arguments =>
      matchPositional (i + 1) names values (assignArgument arguments i v)
  | _, _, arguments => arguments

/-- Values by exact name, the unnamed ones to the formals that no value names. -/
def matchNamed (values : List (Text × SEXP)) (i : ℕ) :
    List Text → List SEXP → Arguments → Arguments
  | [], _, arguments => arguments
  | name :: names, unnamed, arguments =>
      match values.lookup name, unnamed with
      | some v, _ => matchNamed values (i + 1) names unnamed (assignArgument arguments i v)
      | none, v :: unnamed => matchNamed values (i + 1) names unnamed (assignArgument arguments i v)
      | none, [] => matchNamed values (i + 1) names [] arguments

/-- `StringUtils::buildVariableArgumentNames`. -/
def buildVariableArgumentNames (functionName : Text) (count : ℕ) : List Text :=
  (List.range count).map fun i => functionName ++ "___".toList ++ decimal (i + 1)

/-- The argument list of a call; values without a name have an empty one. -/
def matchArguments (fName : Text) (formals : Arguments) (values : List (Text × SEXP)) :
    Except Failure Arguments :=
  let names := formals.map Prod.fst
  if names = ["...".toList] then
    .ok ((buildVariableArgumentNames fName values.length).zip (values.map Prod.snd))
  else if 1 < formals.length ∧ "...".toList ∈ names then
    .error (.raised "Variable argument `...` with other inputs is not supported yet!".toList)
  else if values.all (·.1 = []) then
    .ok (matchPositional 0 names (values.map Prod.snd) formals)
  else
    .ok (matchNamed values 0 names ((values.filter (·.1 = [])).map Prod.snd) formals)

end RCompss.Submission
