import VarDoc.Dict
import VarDoc.Path

/-! Files and directories as one value: a tree, and the directory in it that
relative paths start from. Operations fail for the reasons a file system gives.
There are no links. -/

set_option autoImplicit false

namespace VarDoc

inductive FileError where
  | notFound
  | exists
  | notDirectory
  | isDirectory
  | nameTooLong
  | nulInPath
  | notText
  deriving DecidableEq, Repr

def FileError.message : FileError → String
  | .notFound => "No such file or directory (os error 2)"
  | .exists => "File exists (os error 17)"
  | .notDirectory => "Not a directory (os error 20)"
  | .isDirectory => "Is a directory (os error 21)"
  | .nameTooLong => "File name too long (os error 36)"
  | .nulInPath => "file name contained an unexpected NUL byte"
  | .notText => "stream did not contain valid UTF-8"

inductive FileNode where
  | file (content : ByteArray)
  /-- Entries in increasing order of their names. -/
  | directory (children : List (String × FileNode))

instance : Inhabited FileNode := ⟨.directory []⟩

namespace FileNode

def child? (name : String) : FileNode → Option FileNode
  | .file _ => none
  | .directory children => lookupEntry name children

def get? (node : FileNode) : List String → Option FileNode
  | [] => some node
  | name :: rest => (node.child? name).bind (·.get? rest)

def isDirectory : FileNode → Bool
  | .directory _ => true
  | .file _ => false

def put (node : FileNode) (new : FileNode) : List String → FileNode
  | [] => new
  | name :: rest =>
    match node with
    | .file content => .file content
    | .directory children =>
      let below := (lookupEntry name children).getD (.directory [])
      .directory (insertEntry name (below.put new rest) children)

def remove (node : FileNode) : List String → FileNode
  | [] => node
  | [name] =>
    match node with
    | .file content => .file content
    | .directory children => .directory (children.filter (·.1 != name))
  | name :: rest =>
    match node with
    | .file content => .file content
    | .directory children =>
      match lookupEntry name children with
      | some below => .directory (insertEntry name (below.remove rest) children)
      | none => .directory children

end FileNode

structure FileTree where
  root : FileNode
  /-- Names from the root to the working directory. -/
  workingDirectory : List String
  deriving Inhabited

namespace FileTree

def nameLimit : Nat := 255

def pathLimit : Nat := 4096

/-- Follows parts of a path from the place that `trail` names, innermost
first. Every part, even an empty one, needs a directory to be looked up in. -/
def follow (tree : FileTree) (trail : List String) :
    List (List Char) → Except FileError (List String)
  | [] => .ok trail
  | part :: rest =>
    match tree.root.get? trail.reverse with
    | none => .error .notFound
    | some node =>
      if !node.isDirectory then .error .notDirectory
      else if part = [] ∨ part = ['.'] then tree.follow trail rest
      else if part = ['.', '.'] then tree.follow trail.tail rest
      else
        let name := String.ofList part
        if nameLimit < Text.width part then .error .nameTooLong
        else if (node.child? name).isNone then .error .notFound
        else tree.follow (name :: trail) rest

def startOf (tree : FileTree) (path : Path) : List String :=
  if path.isAbsolute then [] else tree.workingDirectory.reverse

def checkText (path : Path) : Except FileError Unit :=
  if path.text.toList.contains '\x00' then .error .nulInPath
  else if path.text.isEmpty then .error .notFound
  else if pathLimit ≤ path.size then .error .nameTooLong
  else .ok ()

/-- The names from the root to what the path leads to. -/
def resolve (tree : FileTree) (path : Path) : Except FileError (List String) :=
  match checkText path with
  | .error error => .error error
  | .ok () => (tree.follow (tree.startOf path) path.parts).map List.reverse

def node (tree : FileTree) (path : Path) : Except FileError FileNode :=
  match tree.resolve path with
  | .error error => .error error
  | .ok names =>
    match tree.root.get? names with
    | some node => .ok node
    | none => .error .notFound

def isFile (tree : FileTree) (path : Path) : Bool :=
  match tree.node path with
  | .ok (.file _) => true
  | _ => false

def isDirectory (tree : FileTree) (path : Path) : Bool :=
  match tree.node path with
  | .ok (.directory _) => true
  | _ => false

def read (tree : FileTree) (path : Path) : Except FileError ByteArray :=
  match tree.node path with
  | .ok (.file content) => .ok content
  | .ok (.directory _) => .error .isDirectory
  | .error error => .error error

def readText (tree : FileTree) (path : Path) : Except FileError String :=
  match tree.read path with
  | .error error => .error error
  | .ok content =>
    match String.fromUTF8? content with
    | some text => .ok text
    | none => .error .notText

theorem size_lt_of_readText {tree : FileTree} {path : Path} {text : String}
    (read : tree.readText path = .ok text) : path.size < pathLimit := by
  by_cases small : path.size < pathLimit
  · exact small
  · have refused : ∃ error, checkText path = .error error := by
      unfold checkText
      split
      · exact ⟨_, rfl⟩
      · split
        · exact ⟨_, rfl⟩
        · exact ⟨.nameTooLong, by simp [Nat.le_of_not_lt small]⟩
    obtain ⟨error, refused⟩ := refused
    simp [readText, FileTree.read, node, resolve, refused] at read

/-- The place where a path would put a new entry: the directory's names and
the new name. A path that ends in dots or is all slashes names what is already
there. -/
def newEntry (tree : FileTree) (path : Path) : Except FileError (List String × Option String) :=
  match checkText path with
  | .error error => .error error
  | .ok () =>
    match path.parts.reverse.dropWhile (· = []) with
    | [] => .ok ([], none)
    | last :: before =>
      match tree.follow (tree.startOf path) before.reverse with
      | .error error => .error error
      | .ok trail =>
        match tree.root.get? trail.reverse with
        | none => .error .notFound
        | some node =>
          let name := String.ofList last
          if !node.isDirectory then .error .notDirectory
          else if last = ['.'] ∨ last = ['.', '.'] then .ok (trail.reverse, none)
          else if nameLimit < Text.width last then .error .nameTooLong
          else .ok (trail.reverse, some name)

def putNode (tree : FileTree) (names : List String) (new : FileNode) : FileTree :=
  { tree with root := tree.root.put new names }

def makeDirectory (tree : FileTree) (path : Path) : Except FileError FileTree :=
  match tree.newEntry path with
  | .error error => .error error
  | .ok (_, none) => .error .exists
  | .ok (names, some name) =>
    if (tree.root.get? (names ++ [name])).isSome then .error .exists
    else .ok (tree.putNode (names ++ [name]) (.directory []))

def ancestors (path : Path) : List Path :=
  if path.text.isEmpty then []
  else
    match path.parent? with
    | none => []
    | some parent =>
      if parent.size < path.size then path :: ancestors parent else [path]
termination_by path.size

/-- Makes the directories of a list, outermost last, that do not exist. The
first that is there or can be made ends the search; those before it are then
made in turn. -/
def makeMissing (tree : FileTree) : List Path → Except FileError FileTree
  | [] => .ok tree
  | path :: outer =>
    match tree.makeDirectory path with
    | .ok made => .ok made
    | .error .notFound =>
      match tree.makeMissing outer with
      | .error error => .error error
      | .ok grown =>
        match grown.makeDirectory path with
        | .ok made => .ok made
        | .error error =>
          if error = .exists ∧ grown.isDirectory path then .ok grown else .error error
    | .error error => if error = .exists ∧ tree.isDirectory path then .ok tree else .error error

def makeDirectories (tree : FileTree) (path : Path) : Except FileError FileTree :=
  tree.makeMissing (ancestors path)

def write (tree : FileTree) (path : Path) (content : ByteArray) : Except FileError FileTree :=
  match tree.newEntry path with
  | .error error => .error error
  | .ok (_, none) => .error .isDirectory
  | .ok (names, some name) =>
    match tree.root.get? (names ++ [name]) with
    | some (.directory _) => .error .isDirectory
    | _ => .ok (tree.putNode (names ++ [name]) (.file content))

def remove (tree : FileTree) (path : Path) : Except FileError FileTree :=
  (tree.resolve path).map fun names => { tree with root := tree.root.remove names }

end FileTree

end VarDoc
