import VarDoc.Document
import VarDoc.FileTree
import VarDoc.Form.Reader
import VarDoc.Log
import VarDoc.Meta.OfForm

/-! Project files: what the first `defproject` form of a file says of its
project. Options come in pairs; of several with one keyword the last counts. -/

set_option autoImplicit false

namespace VarDoc

inductive ProjectError where
  | unreadable (path : Path) (cause : FileError)
  | malformed (path : Path) (error : ReadError)
  | noProject (path : Path)
  deriving DecidableEq, Repr

def ProjectError.message : ProjectError → String
  | .unreadable path cause => "failed to read '" ++ path.text ++ "': " ++ cause.message
  | .malformed path error => "failed to parse '" ++ path.text ++ "': " ++ error.message
  | .noProject path => "no defproject form in '" ++ path.text ++ "'"

namespace Project

def fileName : String := "project.clj"

def standardSource : Path := ⟨"src"⟩

/-- Group and name, divided at the first slash; a name without one is its own
group. -/
def splitName (qualified : String) : String × String :=
  let symbol := qualified.toList
  match symbol.dropWhile (· != '/') with
  | _ :: name => (String.ofList (symbol.takeWhile (· != '/')), String.ofList name)
  | [] => (qualified, qualified)

/-- Options whose key is a keyword. An option without a value is left out. -/
def options : List Form → List (String × Form)
  | key :: value :: rest => (key.keyword?.map (·, value)).toList ++ options rest
  | _ => []

def jsonOf? (value : Form) : Option Json := (Value.ofForm value).toJson.toOption

def namedOptions : List String :=
  ["description", "url", "license", "licenses", "scm", "source-paths", "source-path"]

def firstItem? : Json → Option Json
  | .array (first :: _) => some first
  | _ => none

/-- The license that is given, or else the first of several. -/
def license? (given : Dict Form) : Option Json :=
  match (given.get? "license").bind jsonOf? with
  | some license => some license
  | none => ((given.get? "licenses").bind jsonOf?).bind firstItem?

def sourcePathList (given : Dict Form) : List Path :=
  (((given.get? "source-paths").bind Form.vector?).getD []).filterMap fun item =>
    item.string?.map Path.mk

def sourcePaths (given : Dict Form) : List Path :=
  match sourcePathList given with
  | [] => [(((given.get? "source-path").bind Form.string?).map Path.mk).getD standardSource]
  | paths => paths

def extra (given : Dict Form) : Dict Json :=
  given.filterMap fun key value => if namedOptions.contains key then none else jsonOf? value

def describe (qualified : String) (version : Option Form) (given : Dict Form) : Descriptor where
  name := some (splitName qualified).2
  group := some (splitName qualified).1
  version := version.map fun form => (Value.ofForm form).toText
  description := (given.get? "description").bind Form.string?
  url := (given.get? "url").bind Form.string?
  scm := (given.get? "scm").bind jsonOf?
  license := license? given
  sourcePaths := sourcePaths given
  extra := extra given

def optionForms (items : List Form) : List Form := items.drop 3

/-- What a `defproject` form with a symbol for a name describes. -/
def ofForm? (form : Form) : Option Descriptor := do
  if !form.isCallTo "defproject" then none
  let items ← form.list?
  let qualified ← items[1]?.bind Form.symbol?
  return describe qualified items[2]? (Dict.ofList (options (optionForms items)))

def trailingEvents (form : Form) : List Event :=
  if (optionForms (form.list?.getD [])).length % 2 = 1 then
    [⟨.debug, .project, "ignoring trailing defproject option", []⟩]
  else []

def find? (forms : List Form) : Option (Form × Descriptor) :=
  forms.findSome? fun form => (ofForm? form).map (form, ·)

def ofFile (tree : FileTree) (path : Path) : Logged (Except ProjectError Descriptor) :=
  match tree.readText path with
  | .error cause => .pure (.error (.unreadable path cause))
  | .ok text =>
    match readAll Features.standard text with
    | .error error => .pure (.error (.malformed path error))
    | .ok forms =>
      match find? forms with
      | none => .pure (.error (.noProject path))
      | some (form, descriptor) => ⟨trailingEvents form, .ok descriptor⟩

def ofDirectory (tree : FileTree) (directory : Path) : Logged (Except ProjectError Descriptor) :=
  ofFile tree (directory.join ⟨fileName⟩)

end Project

end VarDoc
