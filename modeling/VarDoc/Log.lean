import VarDoc.Text.Quoted

/-! Log events, as data that a computation returns beside its result. -/

set_option autoImplicit false

namespace VarDoc

/-- Levels, the most urgent first. -/
inductive Level where
  | error
  | warn
  | info
  | debug
  | trace
  deriving DecidableEq, Repr

namespace Level

def verbosity : Level → Nat
  | .error => 1
  | .warn => 2
  | .info => 3
  | .debug => 4
  | .trace => 5

def name : Level → String
  | .error => "ERROR"
  | .warn => "WARN"
  | .info => "INFO"
  | .debug => "DEBUG"
  | .trace => "TRACE"

end Level

inductive Channel where
  | core
  | project
  | command
  deriving DecidableEq, Repr

/-- What a field of an event holds: text as it is, text between quotes, or a
number. -/
inductive FieldValue where
  | plain (text : String)
  | quoted (text : String)
  | number (value : Nat)
  deriving DecidableEq, Repr

def FieldValue.render : FieldValue → String
  | .plain text => text
  | .quoted text => Text.quote text
  | .number value => toString value

structure Event where
  level : Level
  channel : Channel
  message : String
  fields : List (String × FieldValue) := []
  deriving DecidableEq, Repr

def Event.body (event : Event) : String :=
  event.message ++ String.join (event.fields.map fun (key, value) => " " ++ key ++ "=" ++ value.render)

/-- A result and the events on the way to it, oldest first. -/
structure Logged (α : Type) where
  events : List Event
  value : α

namespace Logged

variable {α β : Type}

def pure (value : α) : Logged α := ⟨[], value⟩

def after (events : List Event) (result : Logged α) : Logged α :=
  ⟨events ++ result.events, result.value⟩

def map (change : α → β) (result : Logged α) : Logged β := ⟨result.events, change result.value⟩

def bind (first : Logged α) (next : α → Logged β) : Logged β :=
  (next first.value).after first.events

end Logged

end VarDoc
