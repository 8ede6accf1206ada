import DocQuery.Dictionary
import DocQuery.Error

/-! Results that carry the caller's context along, whether they succeed or fail. -/
namespace DocQuery

structure Report (α : Type) where
  value : α
  context : Option Dictionary

structure Failure where
  error : Error
  context : Option Dictionary

namespace Failure

def kind (f : Failure) : ErrorKind := f.error.kind

def message (f : Failure) : String := f.error.message

/-- The error behind a failure is the one it wraps. -/
def source (f : Failure) : String := f.error.message

end Failure

abbrev Exit (α : Type) := Except Failure (Report α)

/-- Attaches the context to either side of a result. -/
def exit {α : Type} (result : Except Error α) (context : Option Dictionary) : Exit α :=
  match result with
  | .ok value => .ok ⟨value, context⟩
  | .error error => .error ⟨error, context⟩

end DocQuery
