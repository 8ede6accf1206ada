import DocQuery.Exit
import DocQuery.Filter
import DocQuery.NativeQuery
import DocQuery.Statement.Reading
import DocQuery.Statement.Validity

/-! Compilation of statements to native queries. A statement that is both malformed and unsupported
is reported as malformed. -/
namespace DocQuery

def SortEntry.toBson (e : SortEntry) : Bson :=
  match e.direction with
  | .ascending => .int32 1
  | .descending => .int32 (-1)

namespace Criteria

def filterEntry (c : Criteria) : Except Error Document :=
  match c.filter with
  | some p => do return [("filter", .document (← Filter.ofPredicate p))]
  | none => .ok []

def projectionEntry (c : Criteria) : Document :=
  match c.select with
  | some names =>
      [("projection", .document (Entries.ofList (names.map fun name => (name, .int32 1))))]
  | none => []

def sortEntry (c : Criteria) : Document :=
  match c.sort with
  | some entries =>
      [("sort", .document (Entries.ofList (entries.map fun e => (e.attr, e.toBson))))]
  | none => []

def countEntry (clause : String) : Option Nat → Except Error Document
  | some n =>
      if Json.maxSigned < n then .error (.notSupported (.count clause n))
      else .ok [(clause, .int64 (Int64.ofNat n))]
  | none => .ok []

/-- A limit of zero would mean no limit to MongoDB. -/
def limitEntry (limit : Option Nat) : Except Error Document :=
  if limit = some 0 then .error (.notSupported .zeroLimit) else countEntry "limit" limit

/-- Every clause, as the arguments of a find. -/
def findArguments (c : Criteria) : Except Error Document := do
  let filter ← c.filterEntry
  let limit ← limitEntry c.limit
  let skip ← countEntry "skip" c.skip
  return filter ++ c.projectionEntry ++ c.sortEntry ++ limit ++ skip

/-- The clauses that only a find honours, of those that are set. -/
def findClauses (c : Criteria) : List String :=
  [("sort", c.sort.isSome), ("limit", c.limit.isSome), ("skip", c.skip.isSome),
    ("select", c.select.isSome)].filterMap fun clause => if clause.2 then some clause.1 else none

/-- The filter alone, as the arguments of an update or a deletion. -/
def filterArguments (kind : StatementKind) (c : Criteria) : Except Error Document :=
  match c.findClauses with
  | [] => c.filterEntry
  | clause :: _ => .error (.notSupported (.clause kind.name clause))

end Criteria

namespace NativeQuery

def arguments (s : Statement) : Except Error (Method × Document) :=
  let criteria := s.criteria.getD Criteria.empty
  match s.kind with
  | .find => do return (.find, ← criteria.findArguments)
  | .insert (.one record) => do
      return (.insertOne, [("document", .document (← Bson.ofRecord record))])
  | .insert (.many records) => do
      let documents ← records.mapM Bson.ofRecord
      return (.insertMany, [("documents", .array (documents.map .document))])
  | .update values => do
      let filter ← criteria.filterArguments s.kind
      let document ← Bson.ofRecord values
      return (.updateMany, filter ++ [("update", .document [("$set", .document document)])])
  | .destroy => do return (.deleteMany, ← criteria.filterArguments s.kind)

/-- Translates a statement without checking it. The options of the criteria and then those of the
statement are written over the arguments. -/
def translate (s : Statement) : Except Error NativeQuery := do
  let (method, query) ← arguments s
  let query := Filter.mountAll query (s.criteria.bind Criteria.opts)
  let query := Filter.mountAll query s.opts
  return ⟨s.collection, method, query⟩

def ofStatement (s : Statement) : Except Error NativeQuery := do
  s.validate.mapError fun flaw => .malformed (.statement flaw)
  translate s

def ofJson (value : Json) : Except Error NativeQuery := do
  let s ← (Statement.ofJson value).mapError fun flaw => .malformed (.statement flaw)
  ofStatement s

/-- Compiles a JSON statement. The context, if there is one, must be a dictionary, and comes back with
the outcome. -/
def compile (statement : Json) (context : Option Json) : Exit NativeQuery :=
  match Dictionary.ofArgument context with
  | .ok context => exit (ofJson statement) context
  | .error error => .error ⟨error, none⟩

end NativeQuery

end DocQuery
