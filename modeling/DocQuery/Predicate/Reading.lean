import DocQuery.Predicate
import DocQuery.Statement.Flaw

/-! Reading predicate trees from JSON. Sibling keys and modifiers are taken in code-point order. -/
namespace DocQuery

def optsKey : String := "opts"

def readDictionary (clause : String) : Json → Except StatementFlaw Dictionary
  | .object members => .ok (.ofList members)
  | other => .error (.clauseNotDictionary clause other)

/-- The options next to the other members of an object, if there are any. -/
def readOpts (members : Entries Json) : Except StatementFlaw (Option Dictionary) :=
  match members.get? optsKey with
  | some value => some <$> readDictionary optsKey value
  | none => .ok none

namespace Predicate

/-- The modifiers of an object that maps operator tokens to operands. -/
def readModifiers (members : Entries Json) : List Modifier :=
  (Entries.sorted (members.filter fun m => m.1 != optsKey)).map fun m => ⟨.ofToken m.1, m.2⟩

/-- An array stands for its members, a date-like or a primitive for itself, and any other object for
modifiers. -/
def ofAttribute (attr : String) : Json → Except StatementFlaw Predicate
  | .array items => .ok (.isIn attr items)
  | .object members =>
      if (Json.object members).isDateLike then .ok (.equal attr (.object members))
      else do return .compare attr (readModifiers members) (← readOpts members)
  | primitive => .ok (.equal attr primitive)

/-- One clause is the predicate itself; several are joined. -/
def join? : List Predicate → Option Predicate
  | [] => none
  | [clause] => some clause
  | clauses => some (.all clauses)

def annotate (p : Predicate) : Option Dictionary → Predicate
  | some opts => .annotated p opts
  | none => p

mutual

def ofJson : Json → Except StatementFlaw Predicate
  | .object members => do
      let clauses ← (Entries.sorted (readClauses members)).sequence
      match join? clauses.values with
      | some p => return p.annotate (← readOpts members)
      | none => .error (.predicateWithoutClauses (.object members))
  | other => .error (.predicateNotDictionary other)

/-- The reading of each member but the options. -/
def readClauses : List (String × Json) → Entries (Except StatementFlaw Predicate)
  | [] => []
  | (key, value) :: members =>
      if key = optsKey then readClauses members
      else (key, readClause key value) :: readClauses members

def readClause (key : String) : Json → Except StatementFlaw Predicate
  | .array items =>
      if key = "and" then .conj <$> ofItems items
      else if key = "or" then .disj <$> ofItems items
      else ofAttribute key (.array items)
  | other =>
      if key = "and" ∨ key = "or" then .error (.notPredicates key other)
      else ofAttribute key other

def ofItems : List Json → Except StatementFlaw (List Predicate)
  | [] => .ok []
  | item :: items => do
      let p ← ofJson item
      let ps ← ofItems items
      return p :: ps

end

end Predicate

end DocQuery
