import DocQuery.Binary64
import DocQuery.Entries

/-! JSON values whose objects keep the order of their keys, and the equality that ignores it. -/
namespace DocQuery

/-- An integer of the signed or the unsigned 64-bit range, or a binary64 number. -/
inductive Number where
  | int (value : Int) (inRange : -0x8000000000000000 ≤ value ∧ value ≤ 0xFFFFFFFFFFFFFFFF)
  | float (value : Binary64)
  deriving DecidableEq

inductive Json where
  | null
  | bool (value : Bool)
  | number (value : Number)
  | string (text : String)
  | array (items : List Json)
  | object (members : List (String × Json))
  deriving Inhabited

namespace Number

def ofInt? (i : Int) : Option Number :=
  if h : -0x8000000000000000 ≤ i ∧ i ≤ 0xFFFFFFFFFFFFFFFF then some (.int i h) else none

def ofInt64 (i : Int64) : Number :=
  .int i.toInt (by have := i.le_toInt; have := i.toInt_lt; omega)

def ofInt32 (i : Int32) : Number :=
  .int i.toInt (by have := i.le_toInt; have := i.toInt_lt; omega)

/-- The value of an integer; an integral float is not one. -/
def int? : Number → Option Int
  | .int i _ => some i
  | .float _ => none

def nat? (n : Number) : Option Nat := n.int?.bind Int.toNat?

/-- Numbers of different forms differ: `1` is not `1.0`. -/
def equals : Number → Number → Bool
  | .int i _, .int j _ => i == j
  | .float x, .float y => x.equals y
  | _, _ => false

end Number

namespace Json

/-- The largest integer of the signed 64-bit range. -/
def maxSigned : Int := 0x7FFFFFFFFFFFFFFF

def isNull : Json → Bool
  | .null => true
  | _ => false

def string? : Json → Option String
  | .string text => some text
  | _ => none

/-- The value of an integer that is not negative. -/
def nat? : Json → Option Nat
  | .number n => n.nat?
  | _ => none

mutual

/-- Equality of values, whatever the order of keys at any depth. -/
def equals : Json → Json → Bool
  | .null, .null => true
  | .bool a, .bool b => a == b
  | .number a, .number b => a.equals b
  | .string a, .string b => a == b
  | .array xs, .array ys => itemsEqual xs ys
  | .object ms, .object ns => ms.length == ns.length && membersWithin ms ns
  | _, _ => false

def itemsEqual : List Json → List Json → Bool
  | [], [] => true
  | x :: xs, y :: ys => equals x y && itemsEqual xs ys
  | _, _ => false

/-- Each member of the first object has an equal one of its key in the second. -/
def membersWithin : List (String × Json) → Entries Json → Bool
  | [], _ => true
  | (key, value) :: ms, ns =>
      (match Entries.get? ns key with
        | some other => equals value other
        | none => false) && membersWithin ms ns

end

end Json

end DocQuery
