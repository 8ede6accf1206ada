import DocQuery.Json

/-! Dictionaries: the JSON objects that are carried along as options, records and context. -/
namespace DocQuery

structure Dictionary where
  entries : Entries Json
  distinct : entries.keys.Nodup

namespace Dictionary

def empty : Dictionary := ⟨[], List.nodup_nil⟩

def ofList (es : List (String × Json)) : Dictionary :=
  ⟨Entries.ofList es, Entries.keys_nodup_ofList es⟩

/-- A dictionary is the collection of its own entries. -/
@[simp] theorem ofList_entries (d : Dictionary) : ofList d.entries = d := by
  simp only [ofList, Entries.ofList_of_nodup d.distinct]

def ofJson? : Json → Option Dictionary
  | .object members => some (ofList members)
  | _ => none

def toJson (d : Dictionary) : Json := .object d.entries

def size (d : Dictionary) : Nat := d.entries.length

def isEmpty (d : Dictionary) : Bool := d.entries.isEmpty

def keys (d : Dictionary) : List String := d.entries.keys

def get? (d : Dictionary) (key : String) : Option Json := d.entries.get? key

def insert (d : Dictionary) (key : String) (value : Json) : Dictionary :=
  ⟨d.entries.insert key value, Entries.keys_nodup_insert d.distinct key value⟩

/-- Writes a key and returns what it held before. -/
def exchange (d : Dictionary) (key : String) (value : Json) : Option Json × Dictionary :=
  (d.get? key, d.insert key value)

def sortedEntries (d : Dictionary) : Entries Json := d.entries.sorted

/-- Equality of the values under each key, whatever the order of keys at any depth. -/
def equals (d e : Dictionary) : Bool := d.toJson.equals e.toJson

end Dictionary

end DocQuery
