import VarDoc.Text.Bytes

/-! Paths of files. A path keeps the text it was written with; its components
leave out empty parts and single dots, except a dot at the very start. Two dots
are a component of their own and are never resolved against a name. -/

set_option autoImplicit false

namespace VarDoc

/-- The parts between slashes; there is always at least one. -/
def splitSlashes : List Char → List (List Char)
  | [] => [[]]
  | c :: rest =>
    if c = '/' then [] :: splitSlashes rest
    else
      match splitSlashes rest with
      | part :: parts => (c :: part) :: parts
      | [] => [[c]]

def joinSlashes : List (List Char) → List Char
  | [] => []
  | [part] => part
  | part :: parts => part ++ '/' :: joinSlashes parts

structure Path where
  text : String
  deriving DecidableEq, Repr, Inhabited

namespace Path

def size (path : Path) : Nat := Text.width path.text.toList

inductive Component where
  | root
  | here
  | up
  | name (text : String)
  deriving DecidableEq, Repr

namespace Component

def text : Component → String
  | .root => "/"
  | .here => "."
  | .up => ".."
  | .name text => text

def rank : Component → Nat
  | .root => 0
  | .here => 1
  | .up => 2
  | .name _ => 3

/-- Kinds first, then names by code points. -/
def precedes (left right : Component) : Bool :=
  left.rank < right.rank || (left.rank = right.rank && decide (left.text < right.text))

end Component

def component? (part : List Char) : Option Component :=
  if part = [] ∨ part = ['.'] then none
  else if part = ['.', '.'] then some .up
  else some (.name (String.ofList part))

def parts (path : Path) : List (List Char) := splitSlashes path.text.toList

def isAbsolute (path : Path) : Bool := path.text.toList.head? == some '/'

def leading (first : List Char) (rest : List (List Char)) : List Component :=
  if first = [] then (if rest.isEmpty then [] else [.root])
  else if first = ['.'] then [.here]
  else (component? first).toList

def components (path : Path) : List Component :=
  match path.parts with
  | [] => []
  | first :: rest => leading first rest ++ rest.filterMap component?

/-- Places a path below another one; an absolute path stands for itself. -/
def join (base path : Path) : Path :=
  if path.isAbsolute then path
  else if base.text.isEmpty || base.text.toList.getLast? == some '/' then ⟨base.text ++ path.text⟩
  else ⟨base.text ++ "/" ++ path.text⟩

/-- The path without its last component; the root and the empty path have
none. -/
def parent? (path : Path) : Option Path :=
  match path.parts with
  | [] => none
  | first :: rest =>
    match rest.reverse.dropWhile (component? · |>.isNone) with
    | _ :: before =>
      let kept := (before.dropWhile (component? · |>.isNone)).reverse
      if first = [] ∧ kept = [] then some ⟨"/"⟩
      else some ⟨String.ofList (joinSlashes (first :: kept))⟩
    | [] => if first = [] then none else some ⟨""⟩

def fileName? (path : Path) : Option String :=
  match path.components.getLast? with
  | some (.name text) => some text
  | _ => none

def withoutHere (path : Path) : List Component := path.components.filter (· != .here)

def joinText (components : List Component) : String :=
  "/".intercalate (components.map Component.text)

/-- The path seen from a root, with slashes between components. A path that
is not below the root is given whole. -/
def relativeTo (root path : Path) : String :=
  let base := root.withoutHere
  let full := path.withoutHere
  joinText (if base.isPrefixOf full then full.drop base.length else full)

/-- Component by component; a path comes before those below it. -/
def precedesBy : List Component → List Component → Bool
  | [], [] => false
  | [], _ :: _ => true
  | _ :: _, [] => false
  | left :: lefts, right :: rights =>
    left.precedes right || (left == right && precedesBy lefts rights)

def precedes (left right : Path) : Bool := precedesBy left.components right.components

def same (left right : Path) : Bool := left.components == right.components

end Path

end VarDoc
