import VarDoc.Meta.Record
import VarDoc.Path

/-! Documents: what is known of a project, and the records of its namespaces.
The descriptor of a project holds more than a document keeps. -/

set_option autoImplicit false

namespace VarDoc

structure Descriptor where
  name : Option String := none
  group : Option String := none
  url : Option String := none
  description : Option String := none
  version : Option String := none
  scm : Option Json := none
  license : Option Json := none
  /-- Where the sources are, seen from the project's directory. -/
  sourcePaths : List Path := []
  /-- What else the project says of itself. -/
  extra : Dict Json := ∅
  deriving Inhabited

structure Document where
  name : Option String
  url : Option String
  description : Option String
  version : Option String
  group : Option String
  scm : Option Json
  license : Option Json
  namespaces : Dict (List Record)
  deriving Inhabited

namespace Document

def ofDescriptor (descriptor : Descriptor) : Document where
  name := descriptor.name
  url := descriptor.url
  description := descriptor.description
  version := descriptor.version
  group := descriptor.group
  scm := descriptor.scm
  license := descriptor.license
  namespaces := ∅

def insert (document : Document) (name : String) (records : List Record) : Document :=
  { document with namespaces := document.namespaces.insert name records }

def symbolCount (document : Document) : Nat :=
  (document.namespaces.values.map List.length).foldr (· + ·) 0

def fileName (document : Document) : String :=
  document.name.getD "" ++ "-" ++ document.version.getD "" ++ ".json.gz"

def recordsToJson (records : List Record) : Except Value Json :=
  (records.mapM Record.toJson).map .array

def namespaceToJson (entry : String × List Record) : Except Value (String × Json) :=
  (recordsToJson entry.2).map (entry.1, ·)

def namespacesToJson (namespaces : Dict (List Record)) : Except Value Json :=
  (namespaces.entries.mapM namespaceToJson).map .object

/-- The fields that come before the namespaces; absent ones are left out. -/
def headerFields (document : Document) : List (String × Json) :=
  [("name", document.name.map .string), ("url", document.url.map .string),
    ("description", document.description.map .string), ("version", document.version.map .string),
    ("group", document.group.map .string), ("scm", document.scm),
    ("license", document.license)].filterMap fun (key, value) => value.map (key, ·)

/-- The JSON of a document, or the first value in it that has none. -/
def toJson (document : Document) : Except Value Json :=
  (namespacesToJson document.namespaces).map fun namespaces =>
    .object (document.headerFields ++ [("namespaces", namespaces)])

def documentedCount (records : List Record) : Nat :=
  (records.filter fun record => record.doc?.isSome).length

end Document

end VarDoc
