/-! The comparison operators of the statement vocabulary. -/
namespace DocQuery

/-- A token outside of the vocabulary is kept, so that what compiles it can report it. -/
inductive Operator where
  | lessThan
  | lessThanOrEqual
  | greaterThan
  | greaterThanOrEqual
  | notEqual
  | isIn
  | notIn
  | like
  | contains
  | startsWith
  | endsWith
  | unrecognized (token : String)
  deriving DecidableEq

namespace Operator

def ofToken : String → Operator
  | "<" => .lessThan
  | "<=" => .lessThanOrEqual
  | ">" => .greaterThan
  | ">=" => .greaterThanOrEqual
  | "!=" => .notEqual
  | "in" => .isIn
  | "nin" => .notIn
  | "like" => .like
  | "contains" => .contains
  | "startsWith" => .startsWith
  | "endsWith" => .endsWith
  | token => .unrecognized token

def token : Operator → String
  | .lessThan => "<"
  | .lessThanOrEqual => "<="
  | .greaterThan => ">"
  | .greaterThanOrEqual => ">="
  | .notEqual => "!="
  | .isIn => "in"
  | .notIn => "nin"
  | .like => "like"
  | .contains => "contains"
  | .startsWith => "startsWith"
  | .endsWith => "endsWith"
  | .unrecognized token => token

@[simp] theorem token_ofToken (token : String) : (ofToken token).token = token := by
  unfold ofToken
  split <;> rfl

end Operator

end DocQuery
