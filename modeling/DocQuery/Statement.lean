import DocQuery.Predicate

/-! Statements: one operation against one collection, independent of the database. -/
namespace DocQuery

inductive SortDirection where
  | ascending
  | descending
  deriving DecidableEq

structure SortEntry where
  attr : String
  direction : SortDirection
  deriving DecidableEq

/-- What narrows a statement; an absent clause sets no constraint. -/
structure Criteria where
  filter : Option Predicate := none
  sort : Option (List SortEntry) := none
  limit : Option Nat := none
  skip : Option Nat := none
  select : Option (List String) := none
  opts : Option Dictionary := none

namespace Criteria

def empty : Criteria := {}

def isEmpty (c : Criteria) : Bool :=
  c.filter.isNone && c.sort.isNone && c.limit.isNone && c.skip.isNone && c.select.isNone &&
    c.opts.isNone

end Criteria

inductive Records where
  | one (record : Dictionary)
  | many (records : List Dictionary)

inductive StatementKind where
  | find
  | insert (records : Records)
  | update (values : Dictionary)
  | destroy

def StatementKind.name : StatementKind → String
  | .find => "find"
  | .insert _ => "insert"
  | .update _ => "update"
  | .destroy => "destroy"

structure Statement where
  collection : String
  kind : StatementKind
  criteria : Option Criteria := none
  opts : Option Dictionary := none

end DocQuery
