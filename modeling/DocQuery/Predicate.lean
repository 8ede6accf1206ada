import DocQuery.Dictionary
import DocQuery.Operator

/-! Predicate trees: the conditions that select records. -/
namespace DocQuery

structure Modifier where
  operator : Operator
  operand : Json

/-- `all` joins the sibling keys of one node; `conj` and `disj` are written out. Options stand next to
a node or among the modifiers of an attribute. -/
inductive Predicate where
  | conj (children : List Predicate)
  | disj (children : List Predicate)
  | all (children : List Predicate)
  | equal (attr : String) (value : Json)
  | compare (attr : String) (modifiers : List Modifier) (opts : Option Dictionary)
  | annotated (inner : Predicate) (opts : Dictionary)

namespace Predicate

def modifier (attr : String) (operator : Operator) (operand : Json) : Predicate :=
  .compare attr [⟨operator, operand⟩] none

def ne (attr : String) (value : Json) : Predicate := modifier attr .notEqual value

def gt (attr : String) (value : Json) : Predicate := modifier attr .greaterThan value

def gte (attr : String) (value : Json) : Predicate :=
  modifier attr .greaterThanOrEqual value

def lt (attr : String) (value : Json) : Predicate := modifier attr .lessThan value

def lte (attr : String) (value : Json) : Predicate := modifier attr .lessThanOrEqual value

def isIn (attr : String) (values : List Json) : Predicate :=
  modifier attr .isIn (.array values)

def notIn (attr : String) (values : List Json) : Predicate :=
  modifier attr .notIn (.array values)

def like (attr pattern : String) : Predicate := modifier attr .like (.string pattern)

def contains (attr text : String) : Predicate := modifier attr .contains (.string text)

def startsWith (attr text : String) : Predicate :=
  modifier attr .startsWith (.string text)

def endsWith (attr text : String) : Predicate := modifier attr .endsWith (.string text)

/-- A conjunction that is already written out takes the other predicate as its last child. -/
def and : Predicate → Predicate → Predicate
  | .conj children, other => .conj (children ++ [other])
  | this, other => .conj [this, other]

/-- A disjunction that is already written out takes the other predicate as its last child. -/
def or : Predicate → Predicate → Predicate
  | .disj children, other => .disj (children ++ [other])
  | this, other => .disj [this, other]

end Predicate

end DocQuery
