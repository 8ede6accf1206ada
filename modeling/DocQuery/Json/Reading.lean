import DocQuery.Json.Token

/-! Reading JSON text: at most 127 nested containers, nothing after the value. -/
namespace DocQuery.Json

namespace Reading

/-- An unfinished container whose next item or member is being read. Items are kept in reverse. -/
inductive Frame where
  | array (items : List Json)
  | member (members : Entries Json) (key : String)

/-- What must come next. A container that was just opened may also close. -/
inductive Phase where
  | value (mayClose : Bool)
  | key (members : Entries Json) (mayClose : Bool)
  | colon (members : Entries Json) (key : String)
  | after (value : Json)

/-- The unfinished containers, innermost first, and what comes next in the innermost one. -/
structure State where
  frames : List Frame
  phase : Phase

def State.start : State := ⟨[], .value false⟩

/-- A key given twice keeps its first place and its last value. -/
def step? (maxDepth : Nat) : State → Token → Option State
  | ⟨fs, .value _⟩, .scalar v => some ⟨fs, .after v⟩
  | ⟨fs, .value _⟩, .text s => some ⟨fs, .after (.string s)⟩
  | ⟨fs, .value _⟩, .openArray =>
      if fs.length < maxDepth then some ⟨.array [] :: fs, .value true⟩ else none
  | ⟨fs, .value _⟩, .openObject =>
      if fs.length < maxDepth then some ⟨fs, .key [] true⟩ else none
  | ⟨.array items :: fs, .value true⟩, .closeArray => some ⟨fs, .after (.array items.reverse)⟩
  | ⟨fs, .key ms _⟩, .text s => some ⟨fs, .colon ms s⟩
  | ⟨fs, .key ms true⟩, .closeObject => some ⟨fs, .after (.object ms)⟩
  | ⟨fs, .colon ms key⟩, .colon => some ⟨.member ms key :: fs, .value false⟩
  | ⟨.array items :: fs, .after v⟩, .comma => some ⟨.array (v :: items) :: fs, .value false⟩
  | ⟨.array items :: fs, .after v⟩, .closeArray =>
      some ⟨fs, .after (.array (v :: items).reverse)⟩
  | ⟨.member ms key :: fs, .after v⟩, .comma => some ⟨fs, .key (ms.insert key v) false⟩
  | ⟨.member ms key :: fs, .after v⟩, .closeObject =>
      some ⟨fs, .after (.object (ms.insert key v))⟩
  | _, _ => none

def finished? : State → Option Json
  | ⟨[], .after v⟩ => some v
  | _ => none

end Reading

def maxDepth : Nat := 127

def ofText? (text : String) : Option Json := do
  let tokens ← tokens? text
  let last ← tokens.foldlM (Reading.step? maxDepth) Reading.State.start
  Reading.finished? last

end DocQuery.Json
