import VarDoc.Text.Bytes
import VarDoc.Token.Pattern

/-! Lexing: at every position the longest match is taken. A character that
starts no match is reported and lexing goes on after it; a string or regex
that is never closed takes the rest of the text with it. -/

set_option autoImplicit false

namespace VarDoc

inductive LexError where
  | unexpected (character : Char)
  | openString
  | openRegex
  deriving DecidableEq, Repr

def LexError.message : LexError → String
  | .unexpected character => "unexpected character '" ++ character.toString ++ "'"
  | .openString => "unterminated string literal"
  | .openRegex => "unterminated regex literal"

/-- What lexing yields at one place: a token, or an error and what it covers. -/
inductive LexItem where
  | token (lexed : Token)
  | fault (error : LexError) (span : Span)
  deriving DecidableEq, Repr

namespace LexItem

def span : LexItem → Span
  | .token lexed => lexed.span
  | .fault _ span => span

end LexItem

def lexFault (first : Char) (rest : List Char) : LexError × Nat :=
  match first, rest with
  | '"', _ => (.openString, rest.length + 1)
  | '#', '"' :: _ => (.openRegex, rest.length + 1)
  | _, _ => (.unexpected first, 1)

/-- The item that starts at `offset`, if any, and how many characters of
`first :: rest` are used up there. -/
def lexStep (offset : Nat) (first : Char) (rest : List Char) : Option LexItem × Nat :=
  match Pattern.longest? (first :: rest) with
  | some (pattern, length) =>
    let lexeme := (first :: rest).take length
    let span : Span := ⟨offset, offset + Text.width lexeme⟩
    (pattern.kind?.map fun kind => .token ⟨kind, span, String.ofList lexeme⟩, length)
  | none =>
    let (error, length) := lexFault first rest
    (some (.fault error ⟨offset, offset + Text.width ((first :: rest).take length)⟩), length)

/-- Lexes a text that begins at byte `offset`, where its first `covered`
characters belong to an item already made. -/
def lexFrom (covered offset : Nat) : List Char → List LexItem
  | [] => []
  | first :: rest =>
    let next := offset + first.utf8Size
    match covered with
    | more + 1 => lexFrom more next rest
    | 0 =>
      let (item?, length) := lexStep offset first rest
      match item? with
      | some item => item :: lexFrom (length - 1) next rest
      | none => lexFrom (length - 1) next rest

def lex (text : List Char) : List LexItem := lexFrom 0 0 text

def tokenize (text : List Char) : Except (LexError × Span) (List Token) :=
  (lex text).mapM fun
    | .token lexed => .ok lexed
    | .fault error span => .error (error, span)

end VarDoc
