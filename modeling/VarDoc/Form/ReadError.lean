import VarDoc.Source.Location
import VarDoc.Token.Lexer

/-! Why reading fails. The reader reports a fault by its byte offset; an error
tells the line and column instead. -/

set_option autoImplicit false

namespace VarDoc

inductive ReadCause where
  | lexical (error : LexError)
  | unexpectedEnd (wanted : String)
  | unmatched (delimiter : Delimiter)
  | oddMap
  | invalidMetadata
  | oddConditional
  | splicedOutside
  | invalidEscape (character : Char)
  | namespacedNonMap
  deriving DecidableEq, Repr

def ReadCause.message : ReadCause → String
  | .lexical error => error.message
  | .unexpectedEnd wanted => "unexpected end of file while reading " ++ wanted
  | .unmatched delimiter => "unmatched delimiter '" ++ delimiter.closeText ++ "'"
  | .oddMap => "map literal must contain an even number of forms"
  | .invalidMetadata => "metadata must be a symbol, keyword, string or map"
  | .oddConditional => "reader conditional must contain an even number of forms"
  | .splicedOutside => "splicing reader conditional used outside a collection"
  | .invalidEscape character => "invalid escape sequence '\\" ++ character.toString ++ "' in string"
  | .namespacedNonMap => "namespaced map prefix must be followed by a map"

structure ReadFault where
  cause : ReadCause
  offset : Nat
  deriving DecidableEq, Repr

structure ReadError where
  cause : ReadCause
  location : Location
  deriving DecidableEq, Repr

def ReadError.message (error : ReadError) : String :=
  error.cause.message ++ " at " ++ error.location.render

end VarDoc
