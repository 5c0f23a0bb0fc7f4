import VarDoc.Form.Escape

/-! The tokens of a settings file: words, quoted texts, marks and the ends of
lines. Blanks and comments leave no token. -/

set_option autoImplicit false

namespace VarDoc.Settings

inductive Token where
  /-- A key or a number, as written. -/
  | word (text : List Char)
  /-- A quoted text; a block is written with three quotes. -/
  | text (content : String) (isBlock : Bool)
  | equals
  | openList
  | closeList
  | comma
  | lineEnd
  deriving DecidableEq, Repr

def isGap (c : Char) : Bool := c == ' ' || c == '\t'

def isTextual (c : Char) : Bool := c == '\t' || (0x20 ≤ c.toNat && c.toNat != 0x7f)

def isWordy (c : Char) : Bool := c.isAlphanum || c == '_' || c == '-' || c == '+'

def hexCharacter? (digits : List Char) : Option Char :=
  if digits.all isHexDigit then characterOfCode? (ofDigits 16 digits) else none

def endsLine (text : List Char) : Bool :=
  match text.dropWhile isGap with
  | '\n' :: _ => true
  | '\r' :: '\n' :: _ => true
  | _ => false

def prepend (c : Char) (read : Option (List Char × List Char)) : Option (List Char × List Char) :=
  read.map fun (content, rest) => (c :: content, rest)

def lineText? : List Char → Option (List Char × List Char)
  | [] => none
  | '"' :: rest => some ([], rest)
  | '\\' :: 'u' :: a :: b :: c :: d :: rest =>
    (hexCharacter? [a, b, c, d]).bind (prepend · (lineText? rest))
  | '\\' :: 'U' :: a :: b :: c :: d :: e :: f :: g :: h :: rest =>
    (hexCharacter? [a, b, c, d, e, f, g, h]).bind (prepend · (lineText? rest))
  | '\\' :: c :: rest => (simpleEscape? c).bind (prepend · (lineText? rest))
  | c :: rest => if isTextual c && c != '\\' then prepend c (lineText? rest) else none

def plainText? : List Char → Option (List Char × List Char)
  | [] => none
  | '\x27' :: rest => some ([], rest)
  | c :: rest => if isTextual c then prepend c (plainText? rest) else none

/-- Reads up to three closing quotes; up to two more quotes before them belong
to the content. A backslash at the end of a line drops it and the blanks and
lines after it: `trimming` says that they are being dropped. -/
def block? (trimming : Bool) : List Char → Option (List Char × List Char)
  | [] => none
  | '\n' :: rest => if trimming then block? true rest else prepend '\n' (block? false rest)
  | '\r' :: '\n' :: rest => if trimming then block? true rest else prepend '\n' (block? false rest)
  | '"' :: '"' :: '"' :: '"' :: '"' :: rest => some (['"', '"'], rest)
  | '"' :: '"' :: '"' :: '"' :: rest => some (['"'], rest)
  | '"' :: '"' :: '"' :: rest => some ([], rest)
  | '\\' :: 'u' :: a :: b :: c :: d :: rest =>
    (hexCharacter? [a, b, c, d]).bind (prepend · (block? false rest))
  | '\\' :: 'U' :: a :: b :: c :: d :: e :: f :: g :: h :: rest =>
    (hexCharacter? [a, b, c, d, e, f, g, h]).bind (prepend · (block? false rest))
  | '\\' :: c :: rest =>
    if endsLine (c :: rest) then block? true (c :: rest)
    else (simpleEscape? c).bind (prepend · (block? false rest))
  | c :: rest =>
    if trimming && isGap c then block? true rest
    else if isTextual c && c != '\\' then prepend c (block? false rest)
    else none

def plainBlock? : List Char → Option (List Char × List Char)
  | [] => none
  | '\n' :: rest => prepend '\n' (plainBlock? rest)
  | '\r' :: '\n' :: rest => prepend '\n' (plainBlock? rest)
  | '\x27' :: '\x27' :: '\x27' :: '\x27' :: '\x27' :: rest => some (['\x27', '\x27'], rest)
  | '\x27' :: '\x27' :: '\x27' :: '\x27' :: rest => some (['\x27'], rest)
  | '\x27' :: '\x27' :: '\x27' :: rest => some ([], rest)
  | c :: rest => if isTextual c then prepend c (plainBlock? rest) else none

def afterOpening : List Char → List Char
  | '\n' :: rest => rest
  | '\r' :: '\n' :: rest => rest
  | rest => rest

def quoted? : List Char → Option (Token × List Char)
  | '"' :: '"' :: '"' :: rest =>
    (block? false (afterOpening rest)).map fun (content, rest) =>
      (.text (String.ofList content) true, rest)
  | '\x27' :: '\x27' :: '\x27' :: rest =>
    (plainBlock? (afterOpening rest)).map fun (content, rest) =>
      (.text (String.ofList content) true, rest)
  | '"' :: rest =>
    (lineText? rest).map fun (content, rest) => (.text (String.ofList content) false, rest)
  | '\x27' :: rest =>
    (plainText? rest).map fun (content, rest) => (.text (String.ofList content) false, rest)
  | _ => none

/-- What stands at the start of a text: a token or something that leaves none,
and how many characters it takes. -/
def first? (text : List Char) : Option (Option Token × Nat) :=
  match text with
  | [] => none
  | '\n' :: _ => some (some .lineEnd, 1)
  | '\r' :: '\n' :: _ => some (some .lineEnd, 2)
  | '=' :: _ => some (some .equals, 1)
  | '[' :: _ => some (some .openList, 1)
  | ']' :: _ => some (some .closeList, 1)
  | ',' :: _ => some (some .comma, 1)
  | '#' :: rest => some (none, 1 + (rest.takeWhile isTextual).length)
  | c :: _ =>
    if isGap c then some (none, (text.takeWhile isGap).length)
    else if isWordy c then
      let word := text.takeWhile isWordy
      some (some (.word word), word.length)
    else (quoted? text).map fun (token, rest) => (some token, text.length - rest.length)

/-- The tokens of a text whose first `covered` characters are dealt with. -/
def tokensFrom? (covered : Nat) : List Char → Option (List Token)
  | [] => some []
  | c :: rest =>
    match covered with
    | more + 1 => tokensFrom? more rest
    | 0 =>
      match first? (c :: rest) with
      | none => none
      | some (token, length) => (tokensFrom? (length - 1) rest).map (token.toList ++ ·)

def tokens? (text : List Char) : Option (List Token) :=
  match text with
  | '\ufeff' :: rest => tokensFrom? 0 rest
  | _ => tokensFrom? 0 text

end VarDoc.Settings
