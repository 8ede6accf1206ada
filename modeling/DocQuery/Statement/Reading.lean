import DocQuery.Json.Reading
import DocQuery.Predicate.Reading
import DocQuery.Statement

/-! Reading statements from JSON. -/
namespace DocQuery

/-- The first key that is not among those allowed. -/
def firstUnknown? (allowed : List String) (members : Entries Json) : Option String :=
  members.keys.find? fun key => !allowed.contains key

namespace Criteria

def clauseKeys : List String := ["where", "sort", "limit", "skip", "select", "opts"]

/-- An empty object sets no condition. -/
def readFilter (members : Entries Json) : Except StatementFlaw (Option Predicate) :=
  match members.get? "where" with
  | none => .ok none
  | some (.object []) => .ok none
  | some node => some <$> Predicate.ofJson node

def readCount (members : Entries Json) (clause : String) : Except StatementFlaw (Option Nat) :=
  match members.get? clause with
  | none => .ok none
  | some value =>
      match value.nat? with
      | some n => .ok (some n)
      | none => .error (.notCount clause value)

def readNames (clause : String) : List Json → Except StatementFlaw (List String)
  | [] => .ok []
  | .string name :: items => do return name :: (← readNames clause items)
  | other :: _ => .error (.projectionEntry clause other)

/-- Attribute names; a star among them selects every attribute. -/
def readProjection (clause : String) : Json → Except StatementFlaw (Option (List String))
  | .array items => do
      let names ← readNames clause items
      return if names.contains "*" then none else some names
  | other => .error (.notProjection clause other)

def equalsIgnoringCase (text lower : String) : Bool := text.toList.map Char.toLower == lower.toList

/-- `ASC` and `DESC` in any case, or `1` and `-1`. -/
def direction? : Json → Option SortDirection
  | .string text =>
      if equalsIgnoringCase text "asc" then some .ascending
      else if equalsIgnoringCase text "desc" then some .descending
      else none
  | .number n =>
      if n.int? = some 1 then some .ascending
      else if n.int? = some (-1) then some .descending
      else none
  | _ => none

def readSortEntry : Json → Except StatementFlaw SortEntry
  | .object [(attr, value)] =>
      match direction? value with
      | some direction => .ok ⟨attr, direction⟩
      | none => .error (.sortDirection attr value)
  | other => .error (.sortEntry other)

/-- An empty array sets no order. -/
def readSort (members : Entries Json) : Except StatementFlaw (Option (List SortEntry)) :=
  match members.get? "sort" with
  | none => .ok none
  | some (.array items) => do
      let entries ← items.mapM readSortEntry
      return if entries.isEmpty then none else some entries
  | some other => .error (.sortNotArray other)

def readSelect (members : Entries Json) : Except StatementFlaw (Option (List String)) :=
  match members.get? "select" with
  | none => .ok none
  | some value => readProjection "criteria.select" value

def ofJson : Json → Except StatementFlaw Criteria
  | .object members => do
      if let some key := firstUnknown? clauseKeys members then throw (.unknownClause key)
      let filter ← readFilter members
      let sort ← readSort members
      let limit ← readCount members "limit"
      let skip ← readCount members "skip"
      let select ← readSelect members
      let opts ← readOpts members
      return { filter, sort, limit, skip, select, opts }
  | other => .error (.clauseNotDictionary "criteria" other)

end Criteria

namespace Statement

def keys : List String := ["using", "criteria", "opts", "select", "insert", "update", "delete"]

def kindKeys : List String := ["select", "insert", "update", "delete"]

def readRecords : Json → Except StatementFlaw Records
  | .object members => .ok (.one (.ofList members))
  | .array items => .many <$> items.mapM (readDictionary "insert")
  | other => .error (.notRecords other)

def readDelete : Json → Except StatementFlaw StatementKind
  | .bool true => .ok .destroy
  | other => .error (.deleteNotTrue other)

/-- A projection at the top level stands for one in the criteria. -/
def withProjection (criteria : Option Criteria) (projection : Option (List String)) :
    Except StatementFlaw (Option Criteria) :=
  let c := criteria.getD Criteria.empty
  if c.select.isSome then .error .selectTwice else .ok (some { c with select := projection })

/-- The kind of a statement, whose key decides what else is read. -/
def readKind (members : Entries Json) (criteria : Option Criteria) :
    Except StatementFlaw (StatementKind × Option Criteria) :=
  match members.get? "select", members.get? "insert", members.get? "update",
    members.get? "delete" with
  | some select, _, _, _ => do
      let projection ← Criteria.readProjection "select" select
      return (.find, ← withProjection criteria projection)
  | none, some insert, _, _ => do return (.insert (← readRecords insert), criteria)
  | none, none, some update, _ => do
      return (.update (← readDictionary "update" update), criteria)
  | none, none, none, some delete => do return (← readDelete delete, criteria)
  | none, none, none, none => .ok (.find, criteria)

def readCollection (members : Entries Json) : Except StatementFlaw String :=
  match members.get? "using" with
  | some (.string name) => .ok name
  | some other => .error (.collectionNotString other)
  | none => .error .missingCollection

def readCriteria (members : Entries Json) : Except StatementFlaw (Option Criteria) :=
  match members.get? "criteria" with
  | some value => some <$> Criteria.ofJson value
  | none => .ok none

/-- Criteria without any clause count as absent. -/
def ofJson : Json → Except StatementFlaw Statement
  | .object members => do
      if let some key := firstUnknown? keys members then throw (.unknownKey key)
      let kinds := kindKeys.filter (Entries.hasKey members)
      if 1 < kinds.length then throw (.severalKinds kinds)
      let collection ← readCollection members
      let criteria ← readCriteria members
      let (kind, criteria) ← readKind members criteria
      let opts ← readOpts members
      return { collection, kind, criteria := criteria.filter fun c => !c.isEmpty, opts }
  | other => .error (.notDictionary other)

def ofText (text : String) : Except StatementFlaw Statement :=
  match Json.ofText? text with
  | some value => ofJson value
  | none => .error .notJson

end Statement

end DocQuery
