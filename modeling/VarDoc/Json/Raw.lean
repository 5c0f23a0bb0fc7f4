import VarDoc.Json.Token

/-! JSON text as a tree of what is written, before numbers and strings are
given a meaning. The tree of a text may nest as deep as it likes; what is to be
given a meaning may not. -/

set_option autoImplicit false

namespace VarDoc.Json

inductive Raw where
  | null
  | bool (value : Bool)
  | number (text : NumberText)
  | string (body : List Char)
  | array (items : List Raw)
  | object (fields : List (List Char × Raw))

/-- An array or object that is still open. What it holds so far is newest
first. -/
inductive Raw.Frame where
  | array (items : List Raw)
  | object (fields : List (List Char × Raw))
  /-- An object with a key that has no value yet. -/
  | member (fields : List (List Char × Raw)) (key : List Char)

inductive Raw.Next where
  | value
  | valueOrClose
  | key
  | keyOrClose
  | colon
  | commaOrClose

inductive Raw.State where
  | inside (frames : List Raw.Frame) (next : Raw.Next)
  | done (value : Raw)

namespace Raw

def place (value : Raw) : List Frame → Option State
  | [] => some (.done value)
  | .array items :: below => some (.inside (.array (value :: items) :: below) .commaOrClose)
  | .member fields key :: below =>
    some (.inside (.object ((key, value) :: fields) :: below) .commaOrClose)
  | .object _ :: _ => none

def stepValue (frames : List Frame) : Token → Option State
  | .null => place .null frames
  | .bool value => place (.bool value) frames
  | .number text => place (.number text) frames
  | .string body => place (.string body) frames
  | .openArray => some (.inside (.array [] :: frames) .valueOrClose)
  | .openObject => some (.inside (.object [] :: frames) .keyOrClose)
  | _ => none

def stepKey (frames : List Frame) (token : Token) : Option State :=
  match frames, token with
  | .object fields :: below, .string body => some (.inside (.member fields body :: below) .colon)
  | _, _ => none

def closeArray : List Frame → Option State
  | .array items :: below => place (.array items.reverse) below
  | _ => none

def closeObject : List Frame → Option State
  | .object fields :: below => place (.object fields.reverse) below
  | _ => none

def step : State → Token → Option State
  | .done _, _ => none
  | .inside frames .value, token => stepValue frames token
  | .inside frames .valueOrClose, token =>
    match token with
    | .closeArray => closeArray frames
    | _ => stepValue frames token
  | .inside frames .key, token => stepKey frames token
  | .inside frames .keyOrClose, token =>
    match token with
    | .closeObject => closeObject frames
    | _ => stepKey frames token
  | .inside frames .colon, token =>
    match token with
    | .colon => some (.inside frames .value)
    | _ => none
  | .inside frames .commaOrClose, token =>
    match token, frames with
    | .comma, .array _ :: _ => some (.inside frames .value)
    | .comma, .object _ :: _ => some (.inside frames .key)
    | .closeArray, _ => closeArray frames
    | .closeObject, _ => closeObject frames
    | _, _ => none

def ofTokens? (tokens : List Token) : Option Raw :=
  match tokens.foldlM step (.inside [] .value) with
  | some (.done value) => some value
  | _ => none

def read? (text : String) : Option Raw := (tokens? text.toList).bind ofTokens?

mutual

def depth : Raw → Nat
  | .array items => itemsDepth items + 1
  | .object fields => fieldsDepth fields + 1
  | _ => 0

def itemsDepth : List Raw → Nat
  | [] => 0
  | item :: rest => max item.depth (itemsDepth rest)

def fieldsDepth : List (List Char × Raw) → Nat
  | [] => 0
  | (_, value) :: rest => max value.depth (fieldsDepth rest)

end

def depthLimit : Nat := 127

/-- The tree, unless it nests too deep where so many arrays and objects are around
it. -/
def shallow? (outer : Nat) (raw : Raw) : Option Raw :=
  if outer + raw.depth ≤ depthLimit then some raw else none

end Raw

end VarDoc.Json
