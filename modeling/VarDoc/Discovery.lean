import VarDoc.Glob
import VarDoc.Namespace.Loading

/-! Finding source files: the files below a root whose names have one of
certain extensions, in order of their paths. -/

set_option autoImplicit false

namespace VarDoc

inductive DiscoveryError where
  | invalidPattern (pattern : String)
  deriving DecidableEq, Repr

def DiscoveryError.message : DiscoveryError → String
  | .invalidPattern pattern => "invalid source pattern: " ++ pattern

structure Discovery where
  extensions : List String
  /-- Names of files to leave out. -/
  exclude : List String

namespace Discovery

def standardExtensions : List String := ["clj", "cljc"]

/-- A root without dots that change nothing; if nothing is left, the working
directory. -/
def cleanRoot (root : Path) : Path :=
  match root.withoutHere with
  | [] => ⟨"."⟩
  | components => components.foldl (fun path component => path.join ⟨component.text⟩) ⟨""⟩

/-- Files at any depth whose names end in a dot and the extension, in which
wildcards keep their meaning. -/
def pattern (root : Path) (extension : String) : String :=
  String.ofList (Glob.escape root.text.toList) ++ "/**/*." ++ extension

/-- Puts a path in its place; a path with the same components stays. -/
def insertPath (path : Path) : List Path → List Path
  | [] => [path]
  | first :: rest =>
    if path.same first then first :: rest
    else if path.precedes first then path :: first :: rest
    else first :: insertPath path rest

def isExcluded (discovery : Discovery) (path : Path) : Bool :=
  path.fileName?.any discovery.exclude.contains

def excludedEvent (path : Path) : Event := ⟨.debug, .project, "excluded", [("path", .plain path.text)]⟩

def filesOf (tree : FileTree) (root : Path) (extension : String) :
    Except DiscoveryError (List Path) :=
  let text := pattern root extension
  match Glob.Pattern.read? text with
  | none => .error (.invalidPattern text)
  | some found => .ok (((found.find tree).map Glob.Place.path).filter tree.isFile)

def gather (discovery : Discovery) (tree : FileTree) (root : Path) (found : List Path) :
    List String → Logged (Except DiscoveryError (List Path))
  | [] => .pure (.ok found)
  | extension :: rest =>
    match filesOf tree root extension with
    | .error error => .pure (.error error)
    | .ok paths =>
      let kept := paths.filter fun path => !discovery.isExcluded path
      Logged.after ((paths.filter discovery.isExcluded).map excludedEvent) <|
        gather discovery tree root (kept.foldl (fun sorted path => insertPath path sorted) found) rest

/-- The source files below a root. A root that is not there has none. -/
def discover (discovery : Discovery) (tree : FileTree) (root : Path) :
    Logged (Except DiscoveryError (List SourceFile)) :=
  if tree.isDirectory root then
    let clean := cleanRoot root
    (discovery.gather tree clean [] discovery.extensions).map fun result =>
      result.map fun paths => paths.map (⟨clean, ·⟩)
  else
    ⟨[⟨.debug, .project, "source root does not exist", [("root", .plain root.text)]⟩], .ok []⟩

def discoverAll (discovery : Discovery) (tree : FileTree) :
    List Path → Logged (Except DiscoveryError (List SourceFile))
  | [] => .pure (.ok [])
  | root :: rest =>
    (discovery.discover tree root).bind fun result =>
      match result with
      | .error error => .pure (.error error)
      | .ok files => (discovery.discoverAll tree rest).map fun others => others.map (files ++ ·)

end Discovery

end VarDoc
