import VarDoc.Source.Span

/-! The tokens of Clojure source. Kinds that differ only in which bracket or
which mark they spell share one constructor. -/

set_option autoImplicit false

namespace VarDoc

inductive Delimiter where
  | paren
  | square
  | curly
  deriving DecidableEq, Repr

def Delimiter.closeText : Delimiter → String
  | .paren => ")"
  | .square => "]"
  | .curly => "\x7d"

/-- Collections of single elements; maps, which hold pairs, stand apart. -/
inductive Shape where
  | list
  | vector
  | set
  | function
  deriving DecidableEq, Repr

namespace Shape

def delimiter : Shape → Delimiter
  | .list => .paren
  | .vector => .square
  | .set => .curly
  | .function => .paren

def openText : Shape → String
  | .list => "("
  | .vector => "["
  | .set => "#\x7b"
  | .function => "#("

end Shape

inductive Sigil where
  | quote
  | syntaxQuote
  | unquote
  | unquoteSplicing
  | deref
  | var
  deriving DecidableEq, Repr

inductive TokenKind where
  | opensGroup (shape : Shape)
  | opensMap
  | closes (delimiter : Delimiter)
  | sigil (sigil : Sigil)
  | metadata
  | discard
  | conditional (splicing : Bool)
  | symbolicValue
  | namespacedMap
  | tagged
  | string
  | regex
  | character
  | number
  | keyword
  | symbol
  deriving DecidableEq, Repr

namespace TokenKind

def isClosing : TokenKind → Bool
  | .closes _ => true
  | _ => false

def describe : TokenKind → String
  | .opensGroup .list => "'('"
  | .opensGroup .vector => "'['"
  | .opensGroup .set => "'#\x7b'"
  | .opensGroup .function => "'#('"
  | .opensMap => "'\x7b'"
  | .closes delimiter => "'" ++ delimiter.closeText ++ "'"
  | .sigil .quote => "quote"
  | .sigil .syntaxQuote => "syntax quote"
  | .sigil .unquote => "unquote"
  | .sigil .unquoteSplicing => "unquote-splicing"
  | .sigil .deref => "deref"
  | .sigil .var => "var quote"
  | .metadata => "metadata"
  | .discard => "'#_'"
  | .conditional false => "reader conditional"
  | .conditional true => "splicing reader conditional"
  | .symbolicValue => "symbolic value"
  | .namespacedMap => "namespaced map"
  | .tagged => "tagged literal"
  | .string => "string"
  | .regex => "regex"
  | .character => "character"
  | .number => "number"
  | .keyword => "keyword"
  | .symbol => "symbol"

end TokenKind

structure Token where
  kind : TokenKind
  span : Span
  lexeme : String
  deriving DecidableEq, Repr

end VarDoc
