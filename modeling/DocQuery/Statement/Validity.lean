import DocQuery.Statement
import DocQuery.Statement.Flaw

/-! The rules that a statement obeys beyond its shape, whether it was read or built. -/
namespace DocQuery

namespace Json

/-- Strings, numbers, booleans, null and date-likes. -/
def isScalar : Json → Bool
  | .array _ => false
  | .object members => (Json.object members).isDateLike
  | _ => true

/-- What an order comparison accepts. -/
def isOrdered : Json → Bool
  | .string _ => true
  | .number _ => true
  | value => value.isDateLike

def isString : Json → Bool
  | .string _ => true
  | _ => false

def isScalarArray : Json → Bool
  | .array items => items.all isScalar
  | _ => false

def checkDates (value : Json) : Except StatementFlaw Unit :=
  (DateLike.check value).mapError .date

end Json

/-- Whether an operator accepts an operand; one outside of the vocabulary accepts any. -/
def Operator.accepts : Operator → Json → Bool
  | .lessThan, value => value.isOrdered
  | .lessThanOrEqual, value => value.isOrdered
  | .greaterThan, value => value.isOrdered
  | .greaterThanOrEqual, value => value.isOrdered
  | .notEqual, value => value.isScalar
  | .isIn, value => value.isScalarArray
  | .notIn, value => value.isScalarArray
  | .like, value => value.isString
  | .contains, value => value.isString
  | .startsWith, value => value.isString
  | .endsWith, value => value.isString
  | .unrecognized _, _ => true

def Operator.isRecognized : Operator → Bool
  | .unrecognized _ => false
  | _ => true

/-- Dates within the operand of an unrecognized operator are not looked at. -/
def Modifier.validate (attr : String) (m : Modifier) : Except StatementFlaw Unit :=
  if !m.operator.accepts m.operand then .error (.operand m.operator.token attr m.operand)
  else if m.operator.isRecognized then m.operand.checkDates
  else .ok ()

namespace Predicate

def checkAttribute (attr : String) : Except StatementFlaw Unit :=
  if attr = "" then .error .emptyAttribute else .ok ()

def checkChildren (node : String) (children : List Predicate) : Except StatementFlaw Unit :=
  if children.isEmpty then .error (.noPredicates node) else .ok ()

mutual

def validate : Predicate → Except StatementFlaw Unit
  | .conj children => do
      checkChildren "and" children
      validateAll children
  | .disj children => do
      checkChildren "or" children
      validateAll children
  | .all children => do
      checkChildren "a predicate" children
      validateAll children
  | .equal attr value => do
      checkAttribute attr
      if !value.isScalar then throw (.notScalar attr value)
      value.checkDates
  | .compare attr modifiers _ => do
      checkAttribute attr
      if modifiers.isEmpty then throw (.noModifiers attr)
      modifiers.forM (Modifier.validate attr)
  | .annotated inner _ => validate inner

def validateAll : List Predicate → Except StatementFlaw Unit
  | [] => .ok ()
  | p :: ps => do
      validate p
      validateAll ps

end

end Predicate

/-- Sort attributes are not empty and differ from those before them. -/
def SortEntry.validateAll (seen : List String) : List SortEntry → Except StatementFlaw Unit
  | [] => .ok ()
  | entry :: entries =>
      if entry.attr = "" then .error .emptySortAttribute
      else if seen.contains entry.attr then .error (.repeatedSortAttribute entry.attr)
      else validateAll (entry.attr :: seen) entries

namespace Criteria

def validateSelect (names : List String) : Except StatementFlaw Unit :=
  if names.isEmpty then .error .emptySelect
  else if names.contains "" then .error .emptySelectEntry
  else .ok ()

def validate (c : Criteria) : Except StatementFlaw Unit := do
  c.sort.forM (SortEntry.validateAll [])
  c.select.forM validateSelect
  c.filter.forM Predicate.validate

end Criteria

def Dictionary.validateRecord (record : Dictionary) : Except StatementFlaw Unit :=
  record.entries.values.forM Json.checkDates

namespace Statement

def validateKind (s : Statement) : Except StatementFlaw Unit :=
  match s.kind with
  | .find => .ok ()
  | .destroy => .ok ()
  | .insert records => do
      if s.criteria.isSome then throw .insertWithCriteria
      match records with
      | .one record => record.validateRecord
      | .many [] => throw .noRecords
      | .many records => records.forM Dictionary.validateRecord
  | .update values => do
      if values.isEmpty then throw .noValues
      values.validateRecord

/-- The first rule that the statement breaks, if it breaks one. -/
def validate (s : Statement) : Except StatementFlaw Unit := do
  if s.collection = "" then throw .emptyCollection
  s.validateKind
  s.criteria.forM Criteria.validate

end Statement

end DocQuery
