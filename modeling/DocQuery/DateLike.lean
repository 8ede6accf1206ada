import DocQuery.Json
import DocQuery.Timestamp.Rfc3339

/-! Date-likes: objects whose only key is `$date`, written as a timestamp or as epoch milliseconds. -/
namespace DocQuery

def dateKey : String := "$date"

namespace Json

/-- What a date-like holds. -/
def date? : Json → Option Json
  | .object [(key, inner)] => if key = dateKey then some inner else none
  | _ => none

def isDateLike (value : Json) : Bool := value.date?.isSome

end Json

/-- Why a value is no date. -/
inductive DateFlaw where
  | notDateLike (value : Json)
  | text (written : String) (fault : Timestamp.Fault)
  | number (number : Number)
  | form (value : Json)

namespace DateLike

/-- The instant that a date-like's content denotes. -/
def instant : Json → Except DateFlaw Timestamp
  | .string text => (Timestamp.ofText text).mapError (.text text)
  | .number n =>
      match n.int?.bind Timestamp.ofEpochMillis? with
      | some t => .ok t
      | none => .error (.number n)
  | other => .error (.form other)

/-- The canonical text of a date-like. -/
def canonical (value : Json) : Except DateFlaw String :=
  match value.date? with
  | some inner => do return (← instant inner).text
  | none => .error (.notDateLike value)

mutual

/-- Checks each outermost date-like of a value, in order. -/
def check : Json → Except DateFlaw Unit
  | .array items => checkItems items
  | .object members =>
      match Json.date? (.object members) with
      | some inner => do discard (instant inner)
      | none => checkMembers members
  | _ => .ok ()

def checkItems : List Json → Except DateFlaw Unit
  | [] => .ok ()
  | item :: items => do
      check item
      checkItems items

def checkMembers : List (String × Json) → Except DateFlaw Unit
  | [] => .ok ()
  | (_, value) :: members => do
      check value
      checkMembers members

end

end DateLike

end DocQuery
