import DocQuery.Bson

/-! Native queries: a collection method and the document of its arguments. -/
namespace DocQuery

inductive Method where
  | find
  | insertOne
  | insertMany
  | updateMany
  | deleteMany
  deriving DecidableEq

def Method.name : Method → String
  | .find => "find"
  | .insertOne => "insertOne"
  | .insertMany => "insertMany"
  | .updateMany => "updateMany"
  | .deleteMany => "deleteMany"

/-- Clauses that a statement does not set are absent keys of the query. -/
structure NativeQuery where
  collection : String
  method : Method
  query : Document

namespace NativeQuery

def documentAt? (q : NativeQuery) (key : String) : Option Document :=
  (q.query.get? key).bind Bson.document?

def intAt? (q : NativeQuery) (key : String) : Option Int := (q.query.get? key).bind Bson.int?

def filter? (q : NativeQuery) : Option Document := q.documentAt? "filter"

def projection? (q : NativeQuery) : Option Document := q.documentAt? "projection"

def sort? (q : NativeQuery) : Option Document := q.documentAt? "sort"

def document? (q : NativeQuery) : Option Document := q.documentAt? "document"

def update? (q : NativeQuery) : Option Document := q.documentAt? "update"

/-- The records of an insertion; what is no document among them is skipped. -/
def documents? (q : NativeQuery) : Option (List Document) :=
  ((q.query.get? "documents").bind Bson.array?).map fun items => items.filterMap Bson.document?

def limit? (q : NativeQuery) : Option Int := q.intAt? "limit"

def skip? (q : NativeQuery) : Option Int := q.intAt? "skip"

def toJson (q : NativeQuery) : Json :=
  .object [("collection", .string q.collection), ("method", .string q.method.name),
    ("query", Bson.toJson (.document q.query))]

end NativeQuery

end DocQuery
