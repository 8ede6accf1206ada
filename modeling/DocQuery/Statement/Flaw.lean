import DocQuery.DateLike
import DocQuery.Json.Text

/-! What can be wrong with a statement, and how it is reported. -/
namespace DocQuery

def DateFlaw.message : DateFlaw → String
  | .notDateLike value =>
      "Expected a date-like value (`\x7b\"$date\": ...\x7d`), but got `" ++ value.text ++ "`."
  | .text written fault => "Invalid date `" ++ written ++ "`: " ++ fault.message ++ "."
  | .number n =>
      "Invalid date `" ++ n.text ++ "`: expected milliseconds since the Unix epoch."
  | .form value =>
      "Invalid date `" ++ value.text ++ "`: expected an RFC 3339 string or epoch milliseconds."

/-- A statement is flawed if it cannot be read, or if it is read but breaks a rule. -/
inductive StatementFlaw where
  | notJson
  | notDictionary (value : Json)
  | unknownKey (key : String)
  | severalKinds (kinds : List String)
  | missingCollection
  | collectionNotString (value : Json)
  | selectTwice
  | deleteNotTrue (value : Json)
  | clauseNotDictionary (clause : String) (value : Json)
  | notRecords (value : Json)
  | unknownClause (key : String)
  | notCount (clause : String) (value : Json)
  | notProjection (clause : String) (value : Json)
  | projectionEntry (clause : String) (value : Json)
  | sortNotArray (value : Json)
  | sortEntry (value : Json)
  | sortDirection (attr : String) (value : Json)
  | predicateNotDictionary (value : Json)
  | predicateWithoutClauses (value : Json)
  | notPredicates (key : String) (value : Json)
  | emptyCollection
  | insertWithCriteria
  | noRecords
  | noValues
  | emptySortAttribute
  | repeatedSortAttribute (attr : String)
  | emptySelect
  | emptySelectEntry
  | noPredicates (node : String)
  | emptyAttribute
  | notScalar (attr : String) (value : Json)
  | noModifiers (attr : String)
  | operand (token attr : String) (value : Json)
  | date (flaw : DateFlaw)

namespace StatementFlaw

def message : StatementFlaw → String
  | .notJson => "The text is not JSON."
  | .notDictionary value => "A statement must be a dictionary, but got `" ++ value.text ++ "`."
  | .unknownKey key => "Unrecognized statement key `" ++ key ++ "`."
  | .severalKinds kinds =>
      "A statement may contain only one of `select`, `insert`, `update` or `delete`, but `" ++
        "`, `".intercalate kinds ++ "` were all provided."
  | .missingCollection => "Missing required key `using`."
  | .collectionNotString value => "`using` must be a string, but got `" ++ value.text ++ "`."
  | .selectTwice => "`select` may be given at the top level or in `criteria`, but not both."
  | .deleteNotTrue value => "`delete` must be `true`, but got `" ++ value.text ++ "`."
  | .clauseNotDictionary clause value =>
      "`" ++ clause ++ "` must be a dictionary, but got `" ++ value.text ++ "`."
  | .notRecords value =>
      "`insert` must be a dictionary or an array of dictionaries, but got `" ++ value.text ++ "`."
  | .unknownClause key => "Unrecognized criteria clause `" ++ key ++ "`."
  | .notCount clause value =>
      "`" ++ clause ++ "` must be a non-negative integer, but got `" ++ value.text ++ "`."
  | .notProjection clause value =>
      "`" ++ clause ++ "` must be an array of attribute names, but got `" ++ value.text ++ "`."
  | .projectionEntry clause value =>
      "`" ++ clause ++ "` entries must be strings, but got `" ++ value.text ++ "`."
  | .sortNotArray value => "`sort` must be an array, but got `" ++ value.text ++ "`."
  | .sortEntry value =>
      "Each `sort` entry must be a dictionary with exactly one attribute, but got `" ++
        value.text ++ "`."
  | .sortDirection attr value =>
      "Sort direction for `" ++ attr ++ "` must be `ASC` or `DESC`, but got `" ++ value.text ++ "`."
  | .predicateNotDictionary value =>
      "A predicate must be a dictionary, but got `" ++ value.text ++ "`."
  | .predicateWithoutClauses value =>
      "A predicate must not be empty, but got `" ++ value.text ++ "`."
  | .notPredicates key value =>
      "`" ++ key ++ "` must be an array of predicates, but got `" ++ value.text ++ "`."
  | .emptyCollection => "`using` must not be empty."
  | .insertWithCriteria => "An `insert` statement does not accept `criteria`."
  | .noRecords => "`insert` must contain at least one record."
  | .noValues => "`update` must set at least one attribute."
  | .emptySortAttribute => "Sort attributes must not be empty."
  | .repeatedSortAttribute attr => "Attribute `" ++ attr ++ "` appears more than once in `sort`."
  | .emptySelect => "`select` must name at least one attribute."
  | .emptySelectEntry => "`select` entries must not be empty."
  | .noPredicates node => "`" ++ node ++ "` must contain at least one predicate."
  | .emptyAttribute => "Attribute names must not be empty."
  | .notScalar attr value =>
      "Equality on `" ++ attr ++ "` expects a string, number, boolean, null or date, but got `" ++
        value.text ++ "`."
  | .noModifiers attr =>
      "The modifier map for `" ++ attr ++ "` must contain at least one modifier."
  | .operand token attr value =>
      "`" ++ token ++ "` modifier on `" ++ attr ++ "` does not accept `" ++ value.text ++ "`."
  | .date flaw => flaw.message

end StatementFlaw

end DocQuery
