import VarDoc.Settings.Token

/-! The entries of a settings file. Every line that is not blank gives a value
to a key. -/

set_option autoImplicit false

namespace VarDoc.Settings

inductive Setting where
  | text (content : String)
  | texts (items : List String)
  | number (value : Int)
  deriving DecidableEq, Repr

/-- Digits of some base, where single underscores may divide them. -/
def digitsOf? (isDigit : Char → Bool) (text : List Char) : Option (List Char) :=
  if text.head? = some '_' ∨ text.getLast? = some '_' then none
  else if text.isEmpty then none
  else if (text.zip text.tail).contains ('_', '_') then none
  else
    let digits := text.filter (· != '_')
    if digits.all isDigit then some digits else none

def decimal? (text : List Char) : Option Nat :=
  if text.head? = some '0' ∧ text.length ≠ 1 then none
  else (digitsOf? Char.isDigit text).map (ofDigits 10)

def number? : List Char → Option Int
  | '0' :: 'x' :: rest => (digitsOf? isHexDigit rest).map fun digits => ofDigits 16 digits
  | '0' :: 'o' :: rest => (digitsOf? isOctalDigit rest).map fun digits => ofDigits 8 digits
  | '0' :: 'b' :: rest => (digitsOf? (['0', '1'].contains ·) rest).map fun digits => ofDigits 2 digits
  | '+' :: rest => (decimal? rest).map fun value => value
  | '-' :: rest => (decimal? rest).map fun value => -(value : Int)
  | text => (decimal? text).map fun value => value

def key? : Token → Option String
  | .word text => if text.contains '+' then none else some (String.ofList text)
  | .text content false => some content
  | _ => none

inductive Phase where
  | lineStart
  | afterKey (key : String)
  | beforeValue (key : String)
  /-- Inside a list, before an item; items are newest first. -/
  | beforeItem (key : String) (items : List String)
  | afterItem (key : String) (items : List String)
  | afterValue
  deriving DecidableEq, Repr

structure State where
  /-- The entries so far, newest first. -/
  entries : List (String × Setting)
  phase : Phase

namespace State

def start : State := ⟨[], .lineStart⟩

def enter (state : State) (key : String) (value : Setting) : Option State :=
  if state.entries.any (·.1 == key) then none
  else some ⟨(key, value) :: state.entries, .afterValue⟩

def moveTo (state : State) (phase : Phase) : Option State := some { state with phase }

def step (state : State) (token : Token) : Option State :=
  match state.phase, token with
  | .lineStart, .lineEnd => some state
  | .lineStart, _ => (key? token).bind fun key => state.moveTo (.afterKey key)
  | .afterKey key, .equals => state.moveTo (.beforeValue key)
  | .beforeValue key, .text content _ => state.enter key (.text content)
  | .beforeValue key, .word digits => (number? digits).bind fun value => state.enter key (.number value)
  | .beforeValue key, .openList => state.moveTo (.beforeItem key [])
  | .beforeItem _ _, .lineEnd => some state
  | .beforeItem key items, .text content _ => state.moveTo (.afterItem key (content :: items))
  | .beforeItem key items, .closeList => state.enter key (.texts items.reverse)
  | .afterItem _ _, .lineEnd => some state
  | .afterItem key items, .comma => state.moveTo (.beforeItem key items)
  | .afterItem key items, .closeList => state.enter key (.texts items.reverse)
  | .afterValue, .lineEnd => state.moveTo .lineStart
  | _, _ => none

def finish? (state : State) : Option (List (String × Setting)) :=
  match state.phase with
  | .lineStart | .afterValue => some state.entries.reverse
  | _ => none

end State

def entries? (text : String) : Option (List (String × Setting)) :=
  (tokens? text.toList).bind fun tokens =>
    (tokens.foldlM State.step State.start).bind State.finish?

end VarDoc.Settings
