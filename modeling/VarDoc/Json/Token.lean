import VarDoc.Token.Pattern

/-! The tokens of JSON text. Strings and numbers are kept as written: what a
reader skips has only to be well formed. -/

set_option autoImplicit false

namespace VarDoc.Json

/-- A number as written. Whole part, fraction and exponent are digits; a
missing fraction is empty. -/
structure NumberText where
  negative : Bool
  whole : List Char
  fraction : List Char
  exponent : Option (Bool × List Char)
  deriving DecidableEq, Repr

inductive Token where
  | openArray
  | closeArray
  | openObject
  | closeObject
  | comma
  | colon
  | null
  | bool (value : Bool)
  | number (text : NumberText)
  /-- The characters between the quotes. -/
  | string (body : List Char)
  deriving DecidableEq, Repr

def isSpace (c : Char) : Bool := c == ' ' || c == '\n' || c == '\t' || c == '\r'

def isShortEscape (c : Char) : Bool :=
  ['"', '\\', '/', 'b', 'f', 'n', 'r', 't'].contains c

/-- Number of characters before the quote that ends a string. Control
characters and unknown escapes are refused. -/
def bodyLength? : List Char → Option Nat
  | [] => none
  | '"' :: _ => some 0
  | '\\' :: 'u' :: a :: b :: c :: d :: rest =>
    if isHexDigit a && isHexDigit b && isHexDigit c && isHexDigit d then
      (bodyLength? rest).map (· + 6)
    else none
  | '\\' :: c :: rest => if isShortEscape c then (bodyLength? rest).map (· + 2) else none
  | c :: rest => if c.toNat < 0x20 || c == '\\' then none else (bodyLength? rest).map (· + 1)

def wholePart? (text : List Char) : Option (List Char × List Char) :=
  match text with
  | '0' :: rest => if rest.head?.any Char.isDigit then none else some (['0'], rest)
  | _ =>
    let digits := text.takeWhile Char.isDigit
    if digits.isEmpty then none else some (digits, text.dropWhile Char.isDigit)

def fractionPart? (text : List Char) : Option (List Char × List Char) :=
  match text with
  | '.' :: rest =>
    let digits := rest.takeWhile Char.isDigit
    if digits.isEmpty then none else some (digits, rest.dropWhile Char.isDigit)
  | _ => some ([], text)

def exponentPart? (text : List Char) : Option (Option (Bool × List Char) × List Char) :=
  match text with
  | mark :: rest =>
    if mark = 'e' ∨ mark = 'E' then
      let (negative, size) := match rest with
        | '-' :: size => (true, size)
        | '+' :: size => (false, size)
        | size => (false, size)
      let digits := size.takeWhile Char.isDigit
      if digits.isEmpty then none
      else some (some (negative, digits), size.dropWhile Char.isDigit)
    else some (none, text)
  | [] => some (none, [])

def number? (text : List Char) : Option (NumberText × List Char) :=
  let (negative, size) := match text with
    | '-' :: size => (true, size)
    | size => (false, size)
  (wholePart? size).bind fun (whole, rest) =>
    (fractionPart? rest).bind fun (fraction, rest) =>
      (exponentPart? rest).map fun (exponent, rest) => (⟨negative, whole, fraction, exponent⟩, rest)

def Token.first? (text : List Char) : Option (Token × Nat) :=
  match text with
  | '[' :: _ => some (.openArray, 1)
  | ']' :: _ => some (.closeArray, 1)
  | '\x7b' :: _ => some (.openObject, 1)
  | '\x7d' :: _ => some (.closeObject, 1)
  | ',' :: _ => some (.comma, 1)
  | ':' :: _ => some (.colon, 1)
  | 'n' :: 'u' :: 'l' :: 'l' :: _ => some (.null, 4)
  | 't' :: 'r' :: 'u' :: 'e' :: _ => some (.bool true, 4)
  | 'f' :: 'a' :: 'l' :: 's' :: 'e' :: _ => some (.bool false, 5)
  | '"' :: rest => (bodyLength? rest).map fun length => (.string (rest.take length), length + 2)
  | _ => (number? text).map fun (written, rest) => (.number written, text.length - rest.length)

def tokensFrom (covered : Nat) : List Char → Option (List Token)
  | [] => some []
  | c :: rest =>
    match covered with
    | more + 1 => tokensFrom more rest
    | 0 =>
      if isSpace c then tokensFrom 0 rest
      else
        match Token.first? (c :: rest) with
        | some (token, length) => (tokensFrom (length - 1) rest).map (token :: ·)
        | none => none

def tokens? (text : List Char) : Option (List Token) := tokensFrom 0 text

end VarDoc.Json
