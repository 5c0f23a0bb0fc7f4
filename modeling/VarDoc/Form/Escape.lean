import VarDoc.Token.Pattern

/-! The escape sequences of string literals. -/

set_option autoImplicit false

namespace VarDoc

def digitValue (c : Char) : Nat :=
  if c.isDigit then c.toNat - '0'.toNat
  else if 'a' ≤ c && c ≤ 'z' then c.toNat - 'a'.toNat + 10
  else if 'A' ≤ c && c ≤ 'Z' then c.toNat - 'A'.toNat + 10
  else 36

/-- The number that digits in some base denote, most significant first. -/
def ofDigits (base : Nat) (digits : List Char) : Nat :=
  digits.foldl (fun value c => value * base + digitValue c) 0

/-- A character from its code point; surrogates and numbers past the last
code point have none. -/
def characterOfCode? (code : Nat) : Option Char :=
  if code.isValidChar then some (Char.ofNat code) else none

def hexNumber? (text : List Char) : Option Nat :=
  let digits := match text with
    | '+' :: rest => rest
    | _ => text
  if digits.isEmpty || !digits.all isHexDigit then none else some (ofDigits 16 digits)

def simpleEscape? : Char → Option Char
  | 'n' => some '\n'
  | 't' => some '\t'
  | 'r' => some '\r'
  | 'b' => some '\x08'
  | 'f' => some '\x0c'
  | '"' => some '"'
  | '\\' => some '\\'
  | _ => none

/-- Reads the escape after a backslash: the character it denotes and how many
characters it takes. A `u` looks at no more than four characters, fewer where
the text ends; an octal escape takes up to three digits. -/
def readEscape? (first : Char) (rest : List Char) : Option (Char × Nat) :=
  match simpleEscape? first with
  | some c => some (c, 1)
  | none =>
    if first = 'u' then
      let code := rest.take 4
      ((hexNumber? code).bind characterOfCode?).map (·, 1 + code.length)
    else if isOctalDigit first then
      let digits := first :: (rest.take 2).takeWhile isOctalDigit
      (characterOfCode? (ofDigits 8 digits)).map (·, digits.length)
    else none

/-- Replaces the escapes of a text whose first `covered` characters belong to
an escape already read. The error is the character after a backslash that
begins no escape. -/
def unescapeFrom (covered : Nat) : List Char → Except Char (List Char)
  | [] => .ok []
  | c :: rest =>
    match covered with
    | more + 1 => unescapeFrom more rest
    | 0 =>
      if c = '\\' then
        match rest with
        | [] => .error '\\'
        | first :: tail =>
          match readEscape? first tail with
          | none => .error first
          | some (denoted, length) => (unescapeFrom length rest).map (denoted :: ·)
      else (unescapeFrom 0 rest).map (c :: ·)

def unescape (body : String) : Except Char String :=
  (unescapeFrom 0 body.toList).map String.ofList

end VarDoc
