import DocQuery.Bson
import DocQuery.Pattern
import DocQuery.Predicate

/-! Predicate trees as MongoDB filter documents. -/
namespace DocQuery

def Modifier.text (m : Modifier) : Except Error (List Char) :=
  match m.operand with
  | .string s => .ok s.toList
  | other => .error (.malformed (.operandNotText m.operator.token other))

/-- The regular expression that a string operand stands for. -/
def Modifier.regex (m : Modifier) (pattern : List Char → List Char) : Except Error (String × Bson) := do
  return ("$regex", .string (String.ofList (pattern (← m.text))))

def Modifier.comparison (m : Modifier) (native : String) : Except Error (String × Bson) := do
  return (native, ← Bson.canonical m.operand)

/-- The native operator and operand of a modifier. -/
def Modifier.native (m : Modifier) : Except Error (String × Bson) :=
  match m.operator with
  | .lessThan => m.comparison "$lt"
  | .lessThanOrEqual => m.comparison "$lte"
  | .greaterThan => m.comparison "$gt"
  | .greaterThanOrEqual => m.comparison "$gte"
  | .notEqual => m.comparison "$ne"
  | .isIn => m.comparison "$in"
  | .notIn => m.comparison "$nin"
  | .like => m.regex Pattern.liking
  | .contains => m.regex Pattern.containing
  | .startsWith => m.regex Pattern.startingWith
  | .endsWith => m.regex Pattern.endingWith
  | .unrecognized token => .error (.notSupported (.operator token))

namespace Filter

/-- The operator document of an attribute. `seen` holds the native operators so far with the tokens
they came from; none may come twice. -/
def operators (attr : String) (seen : Entries String) : List Modifier → Except Error Document
  | [] => .ok []
  | m :: ms => do
      let (native, value) ← m.native
      match seen.get? native with
      | some first =>
          .error (.notSupported (.repeatedOperator first m.operator.token attr native))
      | none => do
          let rest ← operators attr (seen ++ [(native, m.operator.token)]) ms
          return (native, value) :: rest

/-- One document with the entries of all, unless a key occurs in two of them. -/
def merge? (merged : Document) : List Document → Option Document
  | [] => some merged
  | d :: ds =>
      if d.keys.any merged.hasKey then none else merge? (merged ++ d) ds

def conjunction (ds : List Document) : Document := [("$and", .array (ds.map .document))]

def disjunction (ds : List Document) : Document := [("$or", .array (ds.map .document))]

/-- Sibling conditions share a document if they can. -/
def joinAll (ds : List Document) : Document := (merge? [] ds).getD (conjunction ds)

def mountAll (d : Document) : Option Dictionary → Document
  | some opts => d.mount opts
  | none => d

mutual

def ofPredicate : Predicate → Except Error Document
  | .conj children => conjunction <$> ofPredicates children
  | .disj children => disjunction <$> ofPredicates children
  | .all children => joinAll <$> ofPredicates children
  | .equal attr value => do return [(attr, ← Bson.canonical value)]
  | .compare attr modifiers opts => do
      let d ← operators attr [] modifiers
      return [(attr, .document (mountAll d opts))]
  | .annotated inner opts => do
      let d ← ofPredicate inner
      return d.mount opts

def ofPredicates : List Predicate → Except Error (List Document)
  | [] => .ok []
  | p :: ps => do
      let d ← ofPredicate p
      let ds ← ofPredicates ps
      return d :: ds

end

end Filter

end DocQuery
