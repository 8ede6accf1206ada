import DocQuery.Error

/-! BSON values, and JSON values as BSON with their keys in code-point order. -/
namespace DocQuery

inductive Bson where
  | null
  | bool (value : Bool)
  | int32 (value : Int32)
  | int64 (value : Int64)
  | double (value : Binary64)
  | string (text : String)
  | array (items : List Bson)
  | document (entries : List (String × Bson))

/-- A document keeps the order in which its keys were first written. -/
abbrev Document := Entries Bson

namespace Bson

/-- The narrowest form that holds an integer; one of neither width is rounded. -/
def ofInt (i : Int) : Bson :=
  if -0x80000000 ≤ i ∧ i ≤ 0x7FFFFFFF then .int32 (Int32.ofInt i)
  else if -0x8000000000000000 ≤ i ∧ i ≤ 0x7FFFFFFFFFFFFFFF then .int64 (Int64.ofInt i)
  else .double (Binary64.ofInt i)

def ofNumber : Number → Bson
  | .int i _ => ofInt i
  | .float x => .double x

mutual

/-- A value as it stands, date-likes included. -/
def verbatim : Json → Bson
  | .null => .null
  | .bool b => .bool b
  | .number n => ofNumber n
  | .string s => .string s
  | .array items => .array (verbatimItems items)
  | .object members => .document (Entries.sorted (verbatimMembers members))

def verbatimItems : List Json → List Bson
  | [] => []
  | item :: items => verbatim item :: verbatimItems items

def verbatimMembers : List (String × Json) → Entries Bson
  | [] => []
  | (key, value) :: members => (key, verbatim value) :: verbatimMembers members

end

/-- A number whose value survives: integers above the signed range are refused. -/
def exact : Number → Except Error Bson
  | .int i h =>
      if Json.maxSigned < i then .error (.notSupported (.integer i)) else .ok (ofNumber (.int i h))
  | .float x => .ok (.double x)

mutual

/-- A value with each outermost date-like replaced by its canonical text. -/
def canonical : Json → Except Error Bson
  | .null => .ok .null
  | .bool b => .ok (.bool b)
  | .number n => exact n
  | .string s => .ok (.string s)
  | .array items => do return .array (← canonicalItems items)
  | .object members =>
      match Json.date? (.object members) with
      | some inner => do
          let t ← (DateLike.instant inner).mapError fun flaw => .malformed (.date flaw)
          return .string t.text
      | none => do return .document (← (Entries.sorted (canonicalMembers members)).sequence)

def canonicalItems : List Json → Except Error (List Bson)
  | [] => .ok []
  | item :: items => do
      let b ← canonical item
      let bs ← canonicalItems items
      return b :: bs

/-- The conversion of each member, before the order of keys decides which failure counts. -/
def canonicalMembers : List (String × Json) → Entries (Except Error Bson)
  | [] => []
  | (key, value) :: members => (key, canonical value) :: canonicalMembers members

end

def ofRecord (record : Dictionary) : Except Error Document :=
  (Entries.sorted (canonicalMembers record.entries)).sequence

mutual

def toJson : Bson → Json
  | .null => .null
  | .bool b => .bool b
  | .int32 i => .number (.ofInt32 i)
  | .int64 i => .number (.ofInt64 i)
  | .double x => .number (.float x)
  | .string s => .string s
  | .array items => .array (itemsToJson items)
  | .document entries => .object (entriesToJson entries)

def itemsToJson : List Bson → List Json
  | [] => []
  | item :: items => toJson item :: itemsToJson items

def entriesToJson : List (String × Bson) → List (String × Json)
  | [] => []
  | (key, value) :: entries => (key, toJson value) :: entriesToJson entries

end

def document? : Bson → Option Document
  | .document entries => some entries
  | _ => none

def array? : Bson → Option (List Bson)
  | .array items => some items
  | _ => none

def int? : Bson → Option Int
  | .int32 i => some i.toInt
  | .int64 i => some i.toInt
  | _ => none

end Bson

/-- Writes options over a document, in code-point order of their keys. -/
def Document.mount (d : Document) (opts : Dictionary) : Document :=
  Entries.insertAll d (Entries.sorted (Bson.verbatimMembers opts.entries))

end DocQuery
