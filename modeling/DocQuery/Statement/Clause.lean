import DocQuery.Statement

/-! Building statements clause by clause. -/
namespace DocQuery

/-- A clause that can be added to a statement. Sort entries add up; any other clause replaces the one
that was set before. -/
inductive Clause where
  | filter (predicate : Predicate)
  | sort (attr : String) (direction : SortDirection)
  | limit (count : Nat)
  | skip (count : Nat)
  | select (attributes : List String)
  | criteriaOpts (opts : Dictionary)
  | opts (opts : Dictionary)

namespace Statement

def find (collection : String) : Statement := ⟨collection, .find, none, none⟩

def insert (collection : String) (record : Dictionary) : Statement :=
  ⟨collection, .insert (.one record), none, none⟩

def insertMany (collection : String) (records : List Dictionary) : Statement :=
  ⟨collection, .insert (.many records), none, none⟩

def update (collection : String) (values : Dictionary) : Statement :=
  ⟨collection, .update values, none, none⟩

def destroy (collection : String) : Statement := ⟨collection, .destroy, none, none⟩

/-- Changes the criteria, which start out without clauses. -/
def mapCriteria (s : Statement) (f : Criteria → Criteria) : Statement :=
  { s with criteria := some (f (s.criteria.getD Criteria.empty)) }

def add (s : Statement) : Clause → Statement
  | .filter predicate => s.mapCriteria fun c => { c with filter := some predicate }
  | .sort attr direction =>
      s.mapCriteria fun c => { c with sort := some (c.sort.getD [] ++ [⟨attr, direction⟩]) }
  | .limit count => s.mapCriteria fun c => { c with limit := some count }
  | .skip count => s.mapCriteria fun c => { c with skip := some count }
  | .select attributes => s.mapCriteria fun c => { c with select := some attributes }
  | .criteriaOpts opts => s.mapCriteria fun c => { c with opts := some opts }
  | .opts opts => { s with opts := some opts }

def addAll (s : Statement) (clauses : List Clause) : Statement := clauses.foldl add s

end Statement

end DocQuery
