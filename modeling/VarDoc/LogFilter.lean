import VarDoc.Form.Escape
import VarDoc.Log

/-! Which events are shown. A filter is a list of directives, each with a level
and perhaps the beginning of a name; of those that fit an event the one with the
longest beginning decides. -/

set_option autoImplicit false

namespace VarDoc

def Channel.target : Channel → String
  | .core => "nsdoc_core"
  | .project => "nsdoc_project"
  | .command => "nsdoc"

structure Directive where
  target : Option String
  /-- The greatest verbosity that is shown; zero shows nothing. -/
  limit : Nat
  deriving DecidableEq, Repr

namespace Directive

def width (directive : Directive) : Nat := directive.target.elim 0 fun target => target.length + 1

def fits (directive : Directive) (name : String) : Bool :=
  directive.target.all fun target => target.toList.isPrefixOf name.toList

def limit? (text : List Char) : Option Nat :=
  match String.ofList (text.map Char.toLower) with
  | "off" => some 0
  | "error" => some Level.error.verbosity
  | "warn" => some Level.warn.verbosity
  | "info" => some Level.info.verbosity
  | "debug" => some Level.debug.verbosity
  | "trace" => some Level.trace.verbosity
  | _ =>
    if !text.isEmpty && text.all Char.isDigit && ofDigits 10 text ≤ 5 then some (ofDigits 10 text)
    else none

def isNameStart (c : Char) : Bool := c.isAlphanum || c == '-' || c == ':' || c == '_'

/-- A level, a name, or a name and a level with an equals sign between them. A
name without a level shows everything. -/
def read? (text : List Char) : Option Directive :=
  if !text.head?.all isNameStart then none
  else
    let name := text.takeWhile (· != '=')
    match text.dropWhile (· != '=') with
    | [] =>
      match limit? text with
      | some limit => some ⟨none, limit⟩
      | none => some ⟨if text.isEmpty then none else some (String.ofList text), Level.trace.verbosity⟩
    | [_] => some ⟨some (String.ofList name), Level.trace.verbosity⟩
    | _ :: level => (limit? level).map fun limit => ⟨some (String.ofList name), limit⟩

end Directive

structure LogFilter where
  directives : List Directive

namespace LogFilter

/-- The more telling of two directives; of equals the later. -/
def better (best : Option Directive) (next : Directive) : Option Directive :=
  match best with
  | some earlier => if next.width < earlier.width then best else some next
  | none => some next

def limitFor (filter : LogFilter) (name : String) : Nat :=
  ((filter.directives.filter (·.fits name)).foldl better none).elim 0 Directive.limit

def shows (filter : LogFilter) (event : Event) : Bool :=
  event.level.verbosity ≤ filter.limitFor event.channel.target

def trim (text : List Char) : List Char :=
  ((text.dropWhile Char.isWhitespace).reverse.dropWhile Char.isWhitespace).reverse

/-- A filter from directives with commas between them, if all are well formed.
A filter without directives shows errors only. -/
def read? (text : String) : Option LogFilter :=
  let written := (text.split ',').toList.map fun part => part.toString.toList
  match (written.filter fun part => !part.isEmpty).mapM fun part => Directive.read? (trim part) with
  | none => none
  | some [] => some ⟨[⟨none, Level.error.verbosity⟩]⟩
  | some directives => some ⟨directives⟩

/-- Warnings from anywhere, and what the program's own parts say up to a
level. -/
def upTo (level : Level) : LogFilter :=
  ⟨[⟨none, Level.warn.verbosity⟩, ⟨some "nsdoc_core", level.verbosity⟩,
    ⟨some "nsdoc_project", level.verbosity⟩, ⟨some "nsdoc_cli", level.verbosity⟩]⟩

end LogFilter

def Event.line (event : Event) : String :=
  String.ofList (List.replicate (5 - event.level.name.length) ' ') ++ event.level.name ++ " " ++
    event.body

end VarDoc
