import WeightedCnf.Fault

namespace WeightedCnf

inductive FormatError where
  | missingHeader
  | invalidHeader (line : Nat)
  | invalidToken (line : Nat) (token : String)
  | variableOutOfRange (line var nVars : Nat)
  | missingWeights
  | weightArity (expected found : Nat)
  | duplicateWeights (line : Nat)
  | weightOverflow (max : Nat)
deriving DecidableEq, Repr

inductive InvalidFormula where
  | weightCount (expected found : Nat)
  | clauseVariable (clause var nVars : Nat)
  | weightOverflow (max : Nat)
  | modelVariable (var nVars : Nat)
deriving DecidableEq, Repr

inductive InvalidSettings where
  | zero (name : String)
  | outside (name range value : String)
  | unknownRule (kind name known : String)
deriving DecidableEq, Repr

inductive FileError where
  | notFound
  | isDirectory
  | notDirectory
  | nameTooLong
  | notText
deriving DecidableEq, Repr

inductive Error where
  | format (cause : FormatError)
  | formula (cause : InvalidFormula)
  | settings (cause : InvalidSettings)
  | file (cause : FileError)
  | stored
  | fault (cause : Fault)
deriving DecidableEq, Repr

namespace FormatError

def message : FormatError → String
  | missingHeader => "missing 'p' header with a variable count"
  | invalidHeader line => s!"line {line}: invalid header, expected 'p <format> <n_vars> ...'"
  | invalidToken line token => s!"line {line}: invalid token '{token}'"
  | variableOutOfRange line var nVars =>
    s!"line {line}: variable {var} is outside the declared range 1..={nVars}"
  | missingWeights => "missing 'w' weights line"
  | weightArity expected found => s!"weights line has {found} entries, expected {expected}"
  | duplicateWeights line => s!"line {line}: duplicate 'w' weights line"
  | weightOverflow max => s!"weights sum to more than the supported maximum score of {max}"

def line? : FormatError → Option Nat
  | invalidHeader line => some line
  | invalidToken line _ => some line
  | variableOutOfRange line _ _ => some line
  | duplicateWeights line => some line
  | _ => none

end FormatError

def InvalidFormula.message : InvalidFormula → String
  | weightCount expected found => s!"expected {expected} weights, got {found}"
  | clauseVariable clause var nVars =>
    s!"clause {clause} references variable {var} outside 1..={nVars}"
  | weightOverflow max => s!"weights sum to more than the supported maximum score of {max}"
  | modelVariable var nVars => s!"model assigns variable {var} outside 1..={nVars}"

def InvalidSettings.message : InvalidSettings → String
  | zero name => s!"{name} must be at least 1"
  | outside name range value => s!"{name} must be {range}, got {value}"
  | unknownRule kind name known => s!"unknown {kind} strategy '{name}' (expected one of: {known})"

def FileError.message : FileError → String
  | notFound => "No such file or directory (os error 2)"
  | isDirectory => "Is a directory (os error 21)"
  | notDirectory => "Not a directory (os error 20)"
  | nameTooLong => "File name too long (os error 36)"
  | notText => "stream did not contain valid UTF-8"

def Error.message : Error → String
  | format cause => "Parse error: " ++ cause.message
  | formula cause => "Invalid formula: " ++ cause.message
  | settings cause => "Configuration error: " ++ cause.message
  | file cause => "I/O error: " ++ cause.message
  | stored => "Serialization error"
  | fault _ => "internal fault"

instance : MonadLift (Except Fault) (Except Error) where
  monadLift r := r.mapError .fault

end WeightedCnf
