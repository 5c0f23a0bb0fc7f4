import VarDoc.Form.Reader
import VarDoc.Log
import VarDoc.Namespace.Definition
import VarDoc.Namespace.LoadError
import VarDoc.Namespace.Visited

/-! Loading a namespace from its file without evaluating anything. An agenda
holds the forms still to be interpreted. A `load` form puts its resources in
front of the rest, and a resource puts the forms of its file there, the first
time that file is met. -/

set_option autoImplicit false

namespace VarDoc

/-- A file together with the directory that it was found under. -/
structure SourceFile where
  root : Path
  path : Path
  deriving DecidableEq, Repr

def SourceFile.relativePath (source : SourceFile) : String := source.root.relativeTo source.path

/-- What stays the same while one namespace is loaded. -/
structure Loading where
  tree : FileTree
  features : Features
  root : Path
  space : String

/-- A file being interpreted. Only the main file must declare the namespace. -/
structure SourceUnit where
  path : Path
  isMain : Bool
  site : Site

inductive LoadTask where
  | form (origin : SourceUnit) (form : Form)
  | resource (origin : Path) (name : String)

def declaredSymbol? (form : Form) : Option String :=
  form.list?.bind fun items => items[1]?.bind Form.symbol?

def switchedNamespace? (forms : List Form) : Option String :=
  (forms.find? fun form => form.isCallTo "ns" || form.isCallTo "in-ns").bind fun form =>
    form.list?.bind fun items => items[1]?.bind fun target =>
      match target with
      | .marked (.sigil .quote) inner _ _ => inner.symbol?
      | _ => target.symbol?

def loadResources? (form : Form) : Option (List String) :=
  if form.isCallTo "load" || form.isCallTo "clojure.core/load" then
    form.list?.map fun items => items.tail.filterMap Form.string?
  else none

namespace LoadTask

/-- How much work a task stands for before the next file is opened. -/
def weight : LoadTask → Nat
  | .form _ pending => 1 + (loadResources? pending).elim 0 List.length
  | .resource _ _ => 1

def totalWeight : List LoadTask → Nat
  | [] => 0
  | task :: rest => task.weight + totalWeight rest

theorem totalWeight_resources (origin : Path) (names : List String) :
    totalWeight (names.map (.resource origin)) = names.length := by
  induction names with
  | nil => rfl
  | cons name rest ih =>
    simp only [List.map_cons, totalWeight, weight, ih, List.length_cons]
    omega

theorem totalWeight_append (first second : List LoadTask) :
    totalWeight (first ++ second) = totalWeight first + totalWeight second := by
  induction first with
  | nil => simp [totalWeight]
  | cons task rest ih => simp [totalWeight, ih, Nat.add_assoc]

theorem totalWeight_cons (task : LoadTask) (rest : List LoadTask) :
    totalWeight (task :: rest) = task.weight + totalWeight rest := rfl

end LoadTask

namespace Loading

/-- The files that a resource may be found in. One that starts with a slash is
looked for under the root, any other beside the file that loads it. -/
def candidates (loading : Loading) (origin : Path) (resource : String) : List Path :=
  let base := match resource.toList with
    | '/' :: rest => loading.root.join ⟨String.ofList rest⟩
    | _ => (origin.parent?.getD loading.root).join ⟨resource⟩
  [⟨base.text ++ ".clj"⟩, ⟨base.text ++ ".cljc"⟩]

def find? (loading : Loading) (origin : Path) (resource : String) : Option Path :=
  (loading.candidates origin resource).find? loading.tree.isFile

def readingEvent (loading : Loading) (path : Path) : Event :=
  ⟨.trace, .core, "reading", [("path", .plain path.text), ("namespace", .plain loading.space)]⟩

def followingEvent (loading : Loading) (resource : String) : Event :=
  ⟨.debug, .core, "following load",
    [("resource", .quoted resource), ("namespace", .plain loading.space)]⟩

def skippingEvent (path : Path) (other : String) : Event :=
  ⟨.debug, .core, "skipping file of another namespace",
    [("path", .plain path.text), ("namespace", .quoted other)]⟩

def openFile (loading : Loading) (path : Path) : Except LoadError (String × List Form) :=
  match loading.tree.readText path with
  | .error cause => .error (.unreadable path cause)
  | .ok text =>
    match readAll loading.features text with
    | .error error => .error (.malformed path error)
    | .ok forms => .ok (text, forms)

theorem size_lt_of_openFile {loading : Loading} {path : Path} {opened : String × List Form}
    (succeeded : loading.openFile path = .ok opened) : path.size < FileTree.pathLimit := by
  unfold openFile at succeeded
  split at succeeded
  · contradiction
  next text read => exact FileTree.size_lt_of_readText read

def unitOf (loading : Loading) (path : Path) (isMain : Bool) (text : String) : SourceUnit :=
  ⟨path, isMain, Site.ofText loading.space (loading.root.relativeTo path) text⟩

def tasksOf (loading : Loading) (path : Path) (isMain : Bool) (opened : String × List Form) :
    List LoadTask :=
  opened.2.map (.form (loading.unitOf path isMain opened.1))

def otherNamespace? (loading : Loading) (forms : List Form) : Option String :=
  (switchedNamespace? forms).filter (· != loading.space)

/-- Works through an agenda and returns the vars interned in the end. -/
def run (loading : Loading) (visited : Visited) (vars : Dict Metadata) :
    List LoadTask → Logged (Except LoadError (Dict Metadata))
  | [] => .pure (.ok vars)
  | .form origin form :: rest =>
    if form.isCallTo "ns" then
      let found := (declaredSymbol? form).getD ""
      if origin.isMain && found != loading.space then
        .pure (.error (.nameMismatch origin.path loading.space found))
      else loading.run visited vars rest
    else
      match _resources : loadResources? form with
      | some names => loading.run visited vars (names.map (.resource origin.path) ++ rest)
      | none => loading.run visited (vars.insertAll (Definition.ofForm origin.site form)) rest
  | .resource origin name :: rest =>
    match loading.find? origin name with
    | none => .pure (.error (.loadNotFound name origin))
    | some path =>
      Logged.after [loading.followingEvent name] <|
      if new : visited.has path = false then
        Logged.after [loading.readingEvent path] <|
        match opened : loading.openFile path with
        | .error error => .pure (.error error)
        | .ok (text, forms) =>
          let grown := visited.add path new (size_lt_of_openFile opened)
          match loading.otherNamespace? forms with
          | some other => Logged.after [skippingEvent path other] (loading.run grown vars rest)
          | none => loading.run grown vars (loading.tasksOf path false (text, forms) ++ rest)
      else loading.run visited vars rest
termination_by tasks => (Visited.capacity - visited.paths.length, LoadTask.totalWeight tasks)
decreasing_by
  · exact Prod.Lex.right _ (by rw [LoadTask.totalWeight_cons, LoadTask.weight]; omega)
  · refine Prod.Lex.right _ ?_
    rw [LoadTask.totalWeight_append, LoadTask.totalWeight_resources, LoadTask.totalWeight_cons,
      LoadTask.weight, _resources]
    simp only [Option.elim]
    omega
  · exact Prod.Lex.right _ (by rw [LoadTask.totalWeight_cons, LoadTask.weight]; omega)
  · have room := grown.size_le
    simp only [grown, Visited.add, List.length_cons] at room
    refine Prod.Lex.left _ _ ?_
    simp only [Visited.add, List.length_cons]
    omega
  · have room := grown.size_le
    simp only [grown, Visited.add, List.length_cons] at room
    refine Prod.Lex.left _ _ ?_
    simp only [Visited.add, List.length_cons]
    omega
  · exact Prod.Lex.right _ (by rw [LoadTask.totalWeight_cons, LoadTask.weight]; omega)

def load (loading : Loading) (path : Path) : Logged (Except LoadError (Dict Metadata)) :=
  Logged.after [loading.readingEvent path] <|
  match opened : loading.openFile path with
  | .error error => .pure (.error error)
  | .ok (text, forms) =>
    let visited := Visited.empty.add path rfl (size_lt_of_openFile opened)
    loading.run visited ∅ (loading.tasksOf path true (text, forms))

end Loading

/-- The namespace that a file declares: the name in its first `ns` form. What
follows that form is not looked at. -/
def declaredNameIn (path : Path) : List (Except ReadError Form) → Except LoadError String
  | [] => .error (.noDeclaration path)
  | .error error :: _ => .error (.malformed path error)
  | .ok form :: rest =>
    if form.isCallTo "ns" then
      match declaredSymbol? form with
      | some name => .ok name
      | none => .error (.unnamedDeclaration path)
    else declaredNameIn path rest

def declaredName (tree : FileTree) (features : Features) (path : Path) :
    Except LoadError String :=
  match tree.readText path with
  | .error cause => .error (.unreadable path cause)
  | .ok text => declaredNameIn path (readEach features text)

end VarDoc
