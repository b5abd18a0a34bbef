import RCompss.Submission.Matching

/-! `process_task`: the values of a task as C values for the runtime. -/
namespace RCompss.Submission

/-- `Rf_type2char`. -/
def typeName : SEXP → Text
  | .nil => "NULL".toList
  | .atom (.lgl _) _ => "logical".toList
  | .atom (.int _) _ => "integer".toList
  | .atom (.real _) _ => "double".toList
  | .atom (.str _) _ => "character".toList
  | .vec _ _ => "list".toList
  | .other o _ =>
      match o.type with
      | .SYMSXP => "symbol".toList
      | .LISTSXP => "pairlist".toList
      | .CLOSXP => "closure".toList
      | .ENVSXP => "environment".toList
      | .PROMSXP => "promise".toList
      | .LANGSXP => "language".toList
      | .SPECIALSXP => "special".toList
      | .BUILTINSXP => "builtin".toList
      | .CPLXSXP => "complex".toList
      | .DOTSXP => "...".toList
      | .EXPRSXP => "expression".toList
      | .BCODESXP => "bytecode".toList
      | .EXTPTRSXP => "externalptr".toList
      | .WEAKREFSXP => "weakref".toList
      | .RAWSXP => "raw".toList
      | .S4SXP => "S4".toList

/-- Types that R coerces to numbers. -/
def isNumber : SEXP → Bool
  | .atom (.lgl _) _ | .atom (.int _) _ | .atom (.real _) _ => true
  | .other o _ => o.type == .CPLXSXP || o.type == .RAWSXP
  | _ => false

/-- `Rf_isString`, of length one. -/
def isSingleString : SEXP → Bool
  | .atom (.str [_]) _ => true
  | _ => false

/-- A string element as a C++ string; `NA_STRING` is one like any other. -/
def stringOf : CharSXP → RString
  | none => ⟨[78, 65], by decide, by decide⟩
  | some s => s

namespace ProcessedValue

/-- A path is a string. -/
def typeName : ProcessedValue → Text
  | .value v => Submission.typeName v
  | .path _ => "character".toList

def length : ProcessedValue → ℕ
  | .value v => v.length
  | .path _ => 1

def isNumber : ProcessedValue → Bool
  | .value v => Submission.isNumber v
  | .path _ => false

def isSingleString : ProcessedValue → Bool
  | .value v => Submission.isSingleString v
  | .path _ => true

end ProcessedValue

/-- `int(values[i])` and `double(values[i])`. -/
def asNumber (target : String) (v : ProcessedValue) : Except Failure Unit :=
  if v.length ≠ 1 then
    .error (.raised ("Expecting a single value: [extent=".toList ++ decimal v.length ++
      "].".toList))
  else if v.isNumber then .ok ()
  else
    .error (.raised ("Not compatible with requested type: [type=".toList ++ v.typeName ++
      "; target=".toList ++ target.toList ++ "].".toList))

/-- `Rcpp::as<std::string>(values[i])`. -/
def asString (v : ProcessedValue) : Except Failure Unit :=
  if v.isSingleString then .ok ()
  else
    .error (.raised ("Expecting a single string value: [type=".toList ++ v.typeName ++
      "; extent=".toList ++ decimal v.length ++ "].".toList))

/-- One round of the first loop of `process_task`. -/
def marshalParameter (v : ProcessedValue) (compssType : ℕ) : Except Failure Unit :=
  if compssType = 0 ∨ compssType = 4 then asNumber "integer" v
  else if compssType = 7 then asNumber "double" v
  else if compssType = 8 ∨ compssType = 10 then asString v
  else
    -- the buffer gets a size that was never set
    .error .undefined

/-- The whole loop; the types are those at the places of the values. -/
def marshalParameters : List ProcessedValue → List ℕ → Except Failure Unit
  | v :: values, compssType :: compssTypes => do
      marshalParameter v compssType
      marshalParameters values compssTypes
  | _, _ => .ok ()

end RCompss.Submission
