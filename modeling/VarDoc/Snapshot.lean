import VarDoc.Document.Reading
import VarDoc.FileTree
import VarDoc.Gzip
import VarDoc.Log

/-! Snapshots: documents stored as JSON in gzip files. -/

set_option autoImplicit false

namespace VarDoc

inductive SnapshotError where
  | file (path : Path) (cause : FileError)
  | unserializable (path : Path) (culprit : Value)
  /-- The file holds no document. -/
  | undecodable (path : Path)

namespace SnapshotError

def message : SnapshotError → String
  | .file path cause => "I/O error on '" ++ path.text ++ "': " ++ cause.message
  | .unserializable path culprit => "JSON error on '" ++ path.text ++ "': " ++ culprit.unserializable
  | .undecodable path => "JSON error on '" ++ path.text ++ "'"

end SnapshotError

namespace Snapshot

def standardLevel : Nat := 6

def encode (text : String) : ByteArray := ⟨(Gzip.compress text.toUTF8.data.toList).toArray⟩

def decode? (content : ByteArray) : Option String :=
  (Gzip.decompress? content.data.toList).bind fun bytes => String.fromUTF8? ⟨bytes.toArray⟩

def writingEvent (path : Path) (level : Nat) : Event :=
  ⟨.debug, .core, "writing snapshot", [("path", .plain path.text), ("level", .number level)]⟩

def wroteEvent (name : String) : Event := ⟨.info, .core, "wrote " ++ name, []⟩

/-- What the file of a document holds; nothing, where the document has no
JSON. -/
def contentOf (document : Document) : ByteArray :=
  match document.toJson with
  | .ok json => encode json.render
  | .error _ => ByteArray.empty

/-- Stores a document in a directory, which is made if it is missing. An older
snapshot of the same name is replaced. -/
def write (tree : FileTree) (document : Document) (directory : Path) (level : Nat) :
    Logged (Except SnapshotError (Path × FileTree)) :=
  match tree.makeDirectories directory with
  | .error cause => .pure (.error (.file directory cause))
  | .ok made =>
    let path := directory.join ⟨document.fileName⟩
    Logged.after [writingEvent path level] <|
    match made.write path (contentOf document), document.toJson with
    | .error cause, _ => .pure (.error (.file path cause))
    | .ok _, .error culprit => .pure (.error (.unserializable path culprit))
    | .ok written, .ok _ => ⟨[wroteEvent document.fileName], .ok (path, written)⟩

/-- The document in a file. A directory can be opened, but holds nothing to
decode. -/
def read (tree : FileTree) (path : Path) : Except SnapshotError Document :=
  match tree.node path with
  | .error cause => .error (.file path cause)
  | .ok (.directory _) => .error (.undecodable path)
  | .ok (.file content) =>
    match (decode? content).bind Document.read? with
    | some document => .ok document
    | none => .error (.undecodable path)

end Snapshot

end VarDoc
