import DocQuery.ConnectionString.Reading
import DocQuery.Dictionary
import DocQuery.Statement.Flaw

/-! The failures of the library: their kinds, causes and wording. -/
namespace DocQuery

/-- Why an input does not have the expected shape. -/
inductive Malformation where
  | stated (message : String)
  | statement (flaw : StatementFlaw)
  | date (flaw : DateFlaw)
  | operandNotText (token : String) (operand : Json)
  | connectionString (input : String) (fault : ConnectionString.Fault)
  | credential (key : String) (value : Json)

/-- What a well-formed statement may ask for and MongoDB cannot express. -/
inductive Unsupported where
  | stated (message : String)
  | integer (value : Int)
  | operator (token : String)
  | repeatedOperator (first second attr target : String)
  | zeroLimit
  | count (clause : String) (value : Nat)
  | clause (kind clause : String)

/-- What went wrong outside of the library. -/
inductive Failing where
  | stated (message : String)
  | unreachable (redacted : String)

inductive InvalidInput where
  | stated (message : String)
  | notDictionary (value : Json)

inductive Error where
  | malformed (cause : Malformation)
  | notSupported (cause : Unsupported)
  | failed (cause : Failing) (source : String)
  | invalidInput (cause : InvalidInput)

inductive ErrorKind where
  | malformed
  | notSupported
  | failed
  | invalidInput
  deriving DecidableEq

def Malformation.message : Malformation → String
  | .stated message => message
  | .statement flaw => flaw.message
  | .date flaw => flaw.message
  | .operandNotText token operand =>
      "`" ++ token ++ "` expects a string, but got `" ++ operand.text ++ "`."
  | .connectionString input fault =>
      "Provided value (`" ++ input ++ "`) is not a valid MongoDB connection string. Error details: " ++
        fault.message
  | .credential key value =>
      "Option `" ++ key ++ "` must be a string, but got `" ++ value.text ++ "`."

def Unsupported.message : Unsupported → String
  | .stated message => message
  | .integer value =>
      "Integer " ++ String.ofList (Decimal.intText value) ++
        " exceeds the largest integer MongoDB stores."
  | .operator token => "Operator `" ++ token ++ "` is not supported by MongoDB."
  | .repeatedOperator first second attr target =>
      "Modifiers `" ++ first ++ "` and `" ++ second ++ "` on attribute `" ++ attr ++
        "` both translate to `" ++ target ++ "`, which MongoDB accepts only once."
  | .zeroLimit => "MongoDB cannot limit a `find` to zero records."
  | .count name value =>
      "`" ++ name ++ "` of " ++ String.ofList (Decimal.natText value) ++
        " exceeds the largest value MongoDB accepts."
  | .clause kind name =>
      "MongoDB `" ++ kind ++ "` statements do not support `" ++ name ++ "`."

def Failing.message : Failing → String
  | .stated message => message
  | .unreachable redacted => "Could not connect to MongoDB at `" ++ redacted ++ "`"

def InvalidInput.message : InvalidInput → String
  | .stated message => message
  | .notDictionary value =>
      "If provided, a dictionary is expected, but got `" ++ value.text ++ "`."

namespace Error

def kind : Error → ErrorKind
  | .malformed _ => .malformed
  | .notSupported _ => .notSupported
  | .failed _ _ => .failed
  | .invalidInput _ => .invalidInput

/-- The message with the kind of the error in front. -/
def message : Error → String
  | .malformed cause => "Malformed: " ++ cause.message
  | .notSupported cause => "Not supported: " ++ cause.message
  | .failed cause _ => "Failed: " ++ cause.message
  | .invalidInput cause => "Invalid input: " ++ cause.message

/-- The error behind this one, which only a failure outside of the library has. -/
def source? : Error → Option String
  | .failed _ source => some source
  | _ => none

end Error

namespace Dictionary

def ofJson (value : Json) : Except Error Dictionary :=
  match ofJson? value with
  | some d => .ok d
  | none => .error (.invalidInput (.notDictionary value))

/-- An optional argument that must be a dictionary when it is given. -/
def ofArgument : Option Json → Except Error (Option Dictionary)
  | none => .ok none
  | some value => some <$> ofJson value

end Dictionary

end DocQuery
