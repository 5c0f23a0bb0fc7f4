import VarDoc.FileTree
import VarDoc.Form.ReadError

/-! Why a source file cannot be loaded as a namespace. -/

set_option autoImplicit false

namespace VarDoc

inductive LoadError where
  | unreadable (path : Path) (cause : FileError)
  | malformed (path : Path) (error : ReadError)
  | noDeclaration (path : Path)
  | unnamedDeclaration (path : Path)
  | nameMismatch (path : Path) (expected found : String)
  | loadNotFound (resource : String) (origin : Path)
  deriving DecidableEq, Repr

def LoadError.message : LoadError → String
  | .unreadable path cause => "failed to read '" ++ path.text ++ "': " ++ cause.message
  | .malformed path error => "syntax error in '" ++ path.text ++ "': " ++ error.message
  | .noDeclaration path => "no ns declaration found in '" ++ path.text ++ "'"
  | .unnamedDeclaration path => "ns declaration in '" ++ path.text ++ "' does not name a namespace"
  | .nameMismatch path expected found =>
    "'" ++ path.text ++ "' declares " ++ found ++ ", expected " ++ expected
  | .loadNotFound resource origin =>
    "could not locate '" ++ resource ++ "' loaded from '" ++ origin.text ++ "'"

end VarDoc
