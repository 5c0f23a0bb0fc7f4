import VarDoc.Text.Bytes

/-! Lines and columns. A line index holds the byte offset of every line's
first character, and the line of an offset is searched for among them; a
location counts lines and characters from one. -/

set_option autoImplicit false

namespace VarDoc

structure Location where
  line : Nat
  column : Nat
  deriving DecidableEq, Repr

namespace Location

def short (location : Location) : String :=
  toString location.line ++ ":" ++ toString location.column

def render (location : Location) : String :=
  "line " ++ toString location.line ++ ", column " ++ toString location.column

end Location

def lineStartsFrom (offset : Nat) : List Char → List Nat
  | [] => []
  | c :: rest =>
    let next := offset + c.utf8Size
    if c = '\n' then next :: lineStartsFrom next rest else lineStartsFrom next rest

/-- How many positions pass a test that a front part of them passes, found by
halving. Those below `low` are known to pass, and those from `high` on not to. -/
def partitionPoint (passes : Nat → Bool) (low high : Nat) : Nat :=
  if low < high then
    let middle := (low + high) / 2
    if passes middle then partitionPoint passes (middle + 1) high
    else partitionPoint passes low middle
  else low
termination_by high - low

structure LineIndex where
  /-- The first line starts at zero; the rest are in increasing order. -/
  starts : Array Nat
  deriving DecidableEq, Repr

namespace LineIndex

def ofText (text : List Char) : LineIndex := ⟨(0 :: lineStartsFrom 0 text).toArray⟩

def startsBy (index : LineIndex) (offset line : Nat) : Bool :=
  index.starts[line]?.any (· ≤ offset)

def line (index : LineIndex) (offset : Nat) : Nat :=
  partitionPoint (index.startsBy offset) 0 index.starts.size - 1

def lineStart? (index : LineIndex) (offset : Nat) : Option Nat :=
  index.starts[index.line offset]?

/-- An offset past the end counts as the end. Where the offset is inside a
character, the column counts bytes instead of characters. -/
def locate (index : LineIndex) (text : List Char) (offset : Nat) : Location :=
  let lineStart := (index.lineStart? offset).getD 0
  let stop := min offset (Text.width text)
  let passed := match Text.slice lineStart stop text with
    | some characters => characters.length
    | none => stop - lineStart
  ⟨index.line offset + 1, passed + 1⟩

end LineIndex

end VarDoc
