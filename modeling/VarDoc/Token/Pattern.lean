import VarDoc.Text.Blank
import VarDoc.Token

/-! The patterns that tokens and skipped stretches are made of. Each pattern
says how far into a text it reaches: the length of the longest beginning of
the text that it matches, and zero where it matches no beginning at all. -/

set_option autoImplicit false

namespace VarDoc

def run (test : Char → Bool) (text : List Char) : Nat := (text.takeWhile test).length

def isGap (c : Char) : Bool :=
  c == ' ' || c == '\t' || c == '\r' || c == '\n' || c == '\x0c' || c == ','

def isBoundary (c : Char) : Bool :=
  [',', ';', '(', ')', '[', ']', '\x7b', '\x7d', '"', '\\', '^', '@', '~', '\x60'].contains c

def isConstituent (c : Char) : Bool := !Text.isBlank c && !isBoundary c

def isSymbolStart (c : Char) : Bool :=
  isConstituent c && !c.isDigit && !(c == ':' || c == '#' || c == '\x27')

def isNumberTail (c : Char) : Bool :=
  c.isDigit || c.isAlpha || c == '.' || c == '+' || c == '/' || c == '-'

def isHexDigit (c : Char) : Bool :=
  c.isDigit || ('a' ≤ c && c ≤ 'f') || ('A' ≤ c && c ≤ 'F')

def isOctalDigit (c : Char) : Bool := '0' ≤ c && c ≤ '7'

/-- Number of characters through the first quote that no backslash escapes. -/
def closingQuote : List Char → Option Nat
  | [] => none
  | '"' :: _ => some 1
  | '\\' :: _ :: rest => (closingQuote rest).map (· + 2)
  | '\\' :: [] => none
  | _ :: rest => (closingQuote rest).map (· + 1)

def characterNames : List (List Char) :=
  ["newline".toList, "space".toList, "tab".toList, "formfeed".toList, "backspace".toList,
   "return".toList]

/-- Reach of what follows the backslash of a character literal: a name, four
hexadecimal digits after `u`, one to three octal digits after `o`, or any one
character that is not white space. -/
def characterReach (text : List Char) : Nat :=
  match characterNames.find? (·.isPrefixOf text) with
  | some name => name.length
  | none =>
    match text with
    | 'u' :: rest => if run isHexDigit (rest.take 4) = 4 then 5 else 1
    | 'o' :: rest => 1 + run isOctalDigit (rest.take 3)
    | c :: _ => if Text.isBlank c then 0 else 1
    | [] => 0

inductive Pattern where
  | skipped
  | fixed (text : List Char) (kind : TokenKind)
  | symbolicValue
  | namespacedMap
  | tagged
  | string
  | regex
  | character
  | number
  | keyword
  | symbol
  deriving DecidableEq, Repr

namespace Pattern

def fixedTexts : List (String × TokenKind) :=
  [("(", .opensGroup .list), (")", .closes .paren), ("[", .opensGroup .vector),
   ("]", .closes .square), ("\x7b", .opensMap), ("\x7d", .closes .curly),
   ("'", .sigil .quote), ("\x60", .sigil .syntaxQuote), ("~", .sigil .unquote),
   ("~@", .sigil .unquoteSplicing), ("@", .sigil .deref), ("^", .metadata), ("#^", .metadata),
   ("#\x7b", .opensGroup .set), ("#(", .opensGroup .function), ("#_", .discard),
   ("#'", .sigil .var), ("#?", .conditional false), ("#?@", .conditional true)]

/-- Where two patterns reach equally far the earlier one is taken, so numbers
come before symbols. -/
def all : List Pattern :=
  .skipped :: fixedTexts.map (fun (text, kind) => .fixed text.toList kind) ++
    [.symbolicValue, .namespacedMap, .tagged, .string, .regex, .character, .number, .keyword,
     .symbol]

def kind? : Pattern → Option TokenKind
  | .skipped => none
  | .fixed _ kind => some kind
  | .symbolicValue => some .symbolicValue
  | .namespacedMap => some .namespacedMap
  | .tagged => some .tagged
  | .string => some .string
  | .regex => some .regex
  | .character => some .character
  | .number => some .number
  | .keyword => some .keyword
  | .symbol => some .symbol

def numberReach : List Char → Nat
  | c :: rest => if c.isDigit then 1 + run isNumberTail rest else 0
  | [] => 0

def reach : Pattern → List Char → Nat
  | .skipped, ';' :: rest => 1 + run (· != '\n') rest
  | .skipped, '#' :: '!' :: rest => 2 + run (· != '\n') rest
  | .skipped, text => run isGap text
  | .fixed wanted _, text => if wanted.isPrefixOf text then wanted.length else 0
  | .symbolicValue, '#' :: '#' :: rest =>
    match run (fun c => c.isAlpha || c == '-') rest with
    | 0 => 0
    | letters + 1 => letters + 3
  | .namespacedMap, '#' :: ':' :: rest => 2 + run isConstituent rest
  | .tagged, '#' :: c :: rest => if c.isAlpha then 2 + run isConstituent rest else 0
  | .string, '"' :: rest => (closingQuote rest).elim 0 (· + 1)
  | .regex, '#' :: '"' :: rest => (closingQuote rest).elim 0 (· + 2)
  | .character, '\\' :: rest =>
    match characterReach rest with
    | 0 => 0
    | characters + 1 => characters + 2
  | .number, c :: rest =>
    if c == '+' || c == '-' then
      match numberReach rest with
      | 0 => 0
      | digits + 1 => digits + 2
    else numberReach (c :: rest)
  | .keyword, ':' :: rest =>
    match run isConstituent rest with
    | 0 => 0
    | characters + 1 => characters + 2
  | .symbol, c :: rest => if isSymbolStart c then 1 + run isConstituent rest else 0
  | _, _ => 0

def farther (text : List Char) (best : Option (Pattern × Nat)) (pattern : Pattern) :
    Option (Pattern × Nat) :=
  if (best.elim 0 Prod.snd) < pattern.reach text then some (pattern, pattern.reach text) else best

def longest? (text : List Char) : Option (Pattern × Nat) :=
  all.foldl (farther text) none

end Pattern

end VarDoc
