import DocQuery.Exit
import DocQuery.Resolution

/-! Clients: handles to a database, marked with what made them. -/
namespace DocQuery

structure Tagged (Handle : Type) where
  handle : Handle
  provenance : String

/-- Whether a handle carries a marker. -/
def Tagged.isFrom {Handle : Type} (t : Tagged Handle) (provenance : String) : Bool :=
  t.provenance == provenance

namespace Client

/-- The marker of the clients made here. -/
def provenance : String := "stmtdriver-mongodb"

def tag {Handle : Type} (handle : Handle) : Tagged Handle := ⟨handle, provenance⟩

variable {Handle : Type}

/-- Connects to what text and options resolve to. `reach` is the outside world: it yields a handle, or
says why the server cannot be reached. -/
def connect (reach : ResolvedConnection → Except String Handle) (text : String)
    (options : Dictionary) : Except Error (Tagged Handle) := do
  let resolved ← ResolvedConnection.resolve text options
  match reach resolved with
  | .ok handle => return tag handle
  | .error source => .error (.failed (.unreachable resolved.connection.redacted) source)

/-- Options and context, if given, must be dictionaries; the context comes back with the outcome. -/
def create (reach : ResolvedConnection → Except String Handle) (text : String)
    (options context : Option Json) : Exit (Tagged Handle) :=
  match Dictionary.ofArgument context with
  | .error error => .error ⟨error, none⟩
  | .ok context =>
      match Dictionary.ofArgument options with
      | .error error => .error ⟨error, context⟩
      | .ok options => exit (connect reach text (options.getD .empty)) context

end Client

end DocQuery
