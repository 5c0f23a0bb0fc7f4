import VarDoc.FileTree
import VarDoc.Glob.Pattern

/-! Finding the files and directories whose path follows a pattern. -/

set_option autoImplicit false

namespace VarDoc.Glob

inductive Part where
  /-- Any number of directories. -/
  | depth
  /-- A name without wildcards. -/
  | exactly (name : String)
  | like (tokens : List Token)
  deriving DecidableEq, Repr

def Token.char? : Token → Option Char
  | .char c => some c
  | _ => none

def Part.ofTokens (tokens : List Token) : Part :=
  if tokens.contains .anyDepth then .depth
  else
    match tokens.mapM Token.char? with
    | some name => .exactly (String.ofList name)
    | none => .like tokens

def Part.accepts (name : String) : Part → Bool
  | .depth => true
  | .exactly given => name == given
  | .like tokens => Glob.accepts tokens name.toList

/-- Parts between slashes; nothing follows a slash at the end. -/
def splitParts (text : List Char) : List (List Char) :=
  match (splitSlashes text).reverse with
  | [] :: before => before.reverse
  | _ => splitSlashes text

structure Pattern where
  isAbsolute : Bool
  parts : List Part
  /-- A pattern that ends in a slash finds directories only. -/
  directoriesOnly : Bool

def Pattern.read? (text : String) : Option Pattern := do
  let chars := text.toList
  let _ ← tokens? chars
  let parts ← (splitParts (chars.dropWhile (· == '/'))).mapM tokens?
  return ⟨chars.head? == some '/', parts.map Part.ofTokens, chars.getLast? == some '/'⟩

structure Place where
  path : Path
  node : FileNode

namespace Place

def isDirectory (place : Place) : Bool := place.node.isDirectory

/-- The path of an entry. Those of the working directory are named alone. -/
def childPath (base : Path) (name : String) : Path :=
  if base.same ⟨"."⟩ then ⟨name⟩ else base.join ⟨name⟩

def name (place : Place) : String := place.path.fileName?.getD ""

def children (place : Place) : List Place :=
  match place.node with
  | .file _ => []
  | .directory entries => entries.map fun (name, node) => ⟨childPath place.path name, node⟩

mutual

def below (base : Path) : FileNode → List Place
  | .file _ => []
  | .directory entries => belowEntries base entries

def belowEntries (base : Path) : List (String × FileNode) → List Place
  | [] => []
  | (name, node) :: rest =>
    let path := childPath base name
    ⟨path, node⟩ :: below path node ++ belowEntries base rest

end

end Place

def place? (tree : FileTree) (path : Path) : Option Place :=
  (tree.node path).toOption.map (⟨path, ·⟩)

/-- The two entries of a directory that are not listed. They are found only by
a pattern that starts with a dot. -/
def dotPlaces (tree : FileTree) (tokens : List Token) (place : Place) : List Place :=
  if tokens.head? = some (.char '.') ∧ place.isDirectory then
    (["..", "."].filter fun name => accepts tokens name.toList).filterMap fun name =>
      place? tree (place.path.join ⟨name⟩)
  else []

/-- Follows the parts of a pattern from a place. After any number of
directories, the next part is compared with the name of each entry below. -/
def follow (tree : FileTree) : List Part → Place → List Place
  | [], place => [place]
  | .exactly name :: rest, place =>
    (place? tree (Place.childPath place.path name)).elim [] (follow tree rest)
  | .like tokens :: rest, place =>
    (dotPlaces tree tokens place).flatMap (follow tree rest) ++
      (place.children.filter fun child => accepts tokens child.name.toList).flatMap (follow tree rest)
  | .depth :: [], place => (Place.below place.path place.node).filter Place.isDirectory
  | .depth :: .depth :: rest, place => follow tree (.depth :: rest) place
  | .depth :: next :: rest, place =>
    ((Place.below place.path place.node).filter fun child => next.accepts child.name).flatMap
      (follow tree rest)

/-- All places that the pattern describes. -/
def Pattern.find (tree : FileTree) (pattern : Pattern) : List Place :=
  let start : Path := ⟨if pattern.isAbsolute then "/" else "."⟩
  let found := (place? tree start).elim [] (follow tree pattern.parts)
  if pattern.directoriesOnly then found.filter Place.isDirectory else found

end VarDoc.Glob
