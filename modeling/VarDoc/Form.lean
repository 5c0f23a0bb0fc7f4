import VarDoc.Token

/-! Forms: what reading source text yields. A form is an atom, a group of
forms between brackets, a map of pairs, or a marked form. Each carries its
span and the metadata written before it, as pairs in reading order. -/

set_option autoImplicit false

namespace VarDoc

inductive Atom where
  | nil
  | bool (value : Bool)
  /-- A number as it is written. -/
  | number (text : String)
  /-- The characters that a string literal denotes. -/
  | string (text : String)
  /-- A character literal as it is written, without its backslash. -/
  | character (name : String)
  /-- A keyword without its first colon. -/
  | keyword (name : String)
  | symbol (name : String)
  /-- A regular expression as it is written between its quotes. -/
  | regex (text : String)
  | symbolicValue (name : String)
  deriving DecidableEq, Repr

inductive Mark where
  | sigil (sigil : Sigil)
  | tag (name : String)
  deriving DecidableEq, Repr

inductive Form where
  | atom (leaf : Atom) (span : Span) (metadata : List (Form × Form))
  | group (shape : Shape) (items : List Form) (span : Span) (metadata : List (Form × Form))
  | map (entries : List (Form × Form)) (span : Span) (metadata : List (Form × Form))
  | marked (mark : Mark) (inner : Form) (span : Span) (metadata : List (Form × Form))
  deriving Repr

namespace Form

def span : Form → Span
  | .atom _ span _ | .group _ _ span _ | .map _ span _ | .marked _ _ span _ => span

def metadata : Form → List (Form × Form)
  | .atom _ _ metadata | .group _ _ _ metadata | .map _ _ metadata | .marked _ _ _ metadata =>
    metadata

/-- Appends metadata and moves the start of the span to that of `start`. -/
def withMetadata (start : Span) (entries : List (Form × Form)) : Form → Form
  | .atom leaf span metadata => .atom leaf (start.merge span) (metadata ++ entries)
  | .group shape items span metadata => .group shape items (start.merge span) (metadata ++ entries)
  | .map pairs span metadata => .map pairs (start.merge span) (metadata ++ entries)
  | .marked mark inner span metadata => .marked mark inner (start.merge span) (metadata ++ entries)

def symbol? : Form → Option String
  | .atom (.symbol name) _ _ => some name
  | _ => none

def keyword? : Form → Option String
  | .atom (.keyword name) _ _ => some name
  | _ => none

def string? : Form → Option String
  | .atom (.string text) _ _ => some text
  | _ => none

def list? : Form → Option (List Form)
  | .group .list items _ _ => some items
  | _ => none

def vector? : Form → Option (List Form)
  | .group .vector items _ _ => some items
  | _ => none

def map? : Form → Option (List (Form × Form))
  | .map entries _ _ => some entries
  | _ => none

def isVector (form : Form) : Bool := form.vector?.isSome

def head? (form : Form) : Option String :=
  form.list?.bind fun items => items.head?.bind symbol?

def isCallTo (form : Form) (name : String) : Bool := form.head? == some name

def isKeyword (name : String) (entry : Form × Form) : Bool := entry.1.keyword? == some name

/-- The value of a keyword in a map; the first of several counts. -/
def mapGet? (form : Form) (name : String) : Option Form :=
  form.map?.bind fun entries => (entries.find? (isKeyword name)).map Prod.snd

/-- The value of a keyword in the metadata; the last of several counts. -/
def metadataGet? (form : Form) (name : String) : Option Form :=
  (form.metadata.reverse.find? (isKeyword name)).map Prod.snd

mutual

def equal : Form → Form → Bool
  | .atom leaf span metadata, .atom leaf' span' metadata' =>
    leaf == leaf' && span == span' && equalPairs metadata metadata'
  | .group shape items span metadata, .group shape' items' span' metadata' =>
    shape == shape' && equalAll items items' && span == span' && equalPairs metadata metadata'
  | .map entries span metadata, .map entries' span' metadata' =>
    equalPairs entries entries' && span == span' && equalPairs metadata metadata'
  | .marked mark inner span metadata, .marked mark' inner' span' metadata' =>
    mark == mark' && equal inner inner' && span == span' && equalPairs metadata metadata'
  | _, _ => false

def equalAll : List Form → List Form → Bool
  | [], [] => true
  | form :: rest, form' :: rest' => equal form form' && equalAll rest rest'
  | _, _ => false

def equalPairs : List (Form × Form) → List (Form × Form) → Bool
  | [], [] => true
  | (key, value) :: rest, (key', value') :: rest' =>
    equal key key' && equal value value' && equalPairs rest rest'
  | _, _ => false

end

instance : BEq Form := ⟨equal⟩

end Form

end VarDoc
