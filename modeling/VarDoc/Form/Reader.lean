import VarDoc.Form
import VarDoc.Form.Escape
import VarDoc.Form.ReadError

/-! Reading forms from lexed source. The reader keeps a stack of frames, one
for each construct that is still open, the innermost first. A token opens a
frame, closes one, or makes a form; a finished form is handed to the frame
below, which may finish in its turn. A form that reaches the bottom is read.

Discarded forms and conditionals without a selected branch leave nothing
behind, so a frame that waits for one form goes on waiting. -/

set_option autoImplicit false

namespace VarDoc

abbrev Features := List String

/-- The feature `default` is always on. -/
def Features.selects (features : Features) (name : String) : Bool :=
  name == "default" || features.contains name

def Features.standard : Features := ["clj"]

/-- A construct that is still open. Forms read so far are newest first. -/
inductive Frame where
  | group (shape : Shape) (start : Span) (items : List Form)
  | map (start : Span) (items : List Form)
  | mark (mark : Mark) (start : Span)
  | discard
  | metadata (start : Span)
  | target (start : Span) (metadata : Form)
  | namespacedMap (name : String) (start : Span)
  | condition (splicing : Bool) (start : Span)
  | branches (splicing : Bool) (start opening : Span) (items : List Form)
  deriving Repr

namespace Frame

def wanted : Frame → String
  | .group .list _ _ => "list"
  | .group .vector _ _ => "vector"
  | .group .set _ _ => "set"
  | .group .function _ _ => "function literal"
  | .map _ _ => "map"
  | .mark (.sigil .quote) _ => "quoted form"
  | .mark (.sigil .syntaxQuote) _ => "syntax-quoted form"
  | .mark (.sigil .unquote) _ | .mark (.sigil .unquoteSplicing) _ => "unquoted form"
  | .mark (.sigil .deref) _ => "dereferenced form"
  | .mark (.sigil .var) _ => "var-quoted form"
  | .mark (.tag _) _ => "tagged literal"
  | .discard => "discarded form"
  | .metadata _ => "metadata"
  | .target _ _ => "metadata target"
  | .namespacedMap _ _ => "namespaced map"
  | .condition _ _ | .branches _ _ _ _ => "reader conditional"

def collect? (forms : List Form) : Frame → Option Frame
  | .group shape start items => some (.group shape start (forms.reverse ++ items))
  | .map start items => some (.map start (forms.reverse ++ items))
  | .branches splicing start opening items =>
    some (.branches splicing start opening (forms.reverse ++ items))
  | _ => none

end Frame

/-- The state of the reader after a step: still inside some constructs, or
holding a form that no construct surrounds. -/
inductive ReadState where
  | reading (frames : List Frame)
  | done (form : Form)
  deriving Repr

/-- The metadata that a form before another one denotes. -/
def metadataEntries? (form : Form) : Option (List (Form × Form)) :=
  match form with
  | .atom (.symbol _) span _ | .atom (.string _) span _ =>
    some [(.atom (.keyword "tag") span [], form)]
  | .atom (.keyword _) span _ => some [(form, .atom (.bool true) span [])]
  | .map entries _ _ => some entries
  | _ => none

def qualifyKey (name : String) (key : Form) : Form :=
  match key with
  | .atom (.keyword keyword) span _ =>
    if name.isEmpty || keyword.toList.contains '/' then key
    else .atom (.keyword (name ++ "/" ++ keyword)) span []
  | _ => key

/-- Groups consecutive forms; `none` if one is left over. -/
def pairs? {α : Type} : List α → Option (List (α × α))
  | [] => some []
  | [_] => none
  | first :: second :: rest => (pairs? rest).map ((first, second) :: ·)

def deliver : List Frame → Form → Except ReadFault ReadState
  | [], form => .ok (.done form)
  | .group shape start items :: below, form =>
    .ok (.reading (.group shape start (form :: items) :: below))
  | .map start items :: below, form => .ok (.reading (.map start (form :: items) :: below))
  | .branches splicing start opening items :: below, form =>
    .ok (.reading (.branches splicing start opening (form :: items) :: below))
  | .mark mark start :: below, form =>
    deliver below (.marked mark form (start.merge form.span) [])
  | .discard :: below, _ => .ok (.reading below)
  | .metadata start :: below, form => .ok (.reading (.target start form :: below))
  | .target start metadata :: below, form =>
    match metadataEntries? metadata with
    | some entries => deliver below (form.withMetadata start entries)
    | none => .error ⟨.invalidMetadata, metadata.span.start⟩
  | .namespacedMap name start :: below, form =>
    let span := start.merge form.span
    match form with
    | .map entries _ _ =>
      deliver below (.map (entries.map fun (key, value) => (qualifyKey name key, value)) span [])
    | _ => .error ⟨.namespacedNonMap, span.start⟩
  | .condition splicing start :: below, _ => .ok (.reading (.condition splicing start :: below))

/-- The form after the first keyword that a feature selects. -/
def selectBranch? (features : Features) (branches : List (Form × Form)) : Option Form :=
  (branches.find? fun (key, _) => key.keyword?.any features.selects).map Prod.snd

def splicedForms : Form → List Form
  | .group .list items _ _ | .group .vector items _ _ => items
  | form => [form]

/-- Ends a conditional that stands directly inside `below`. -/
def closeBranches (features : Features) (splicing : Bool) (start whole : Span)
    (items : List Form) (below : List Frame) : Except ReadFault ReadState :=
  match pairs? items with
  | none => .error ⟨.oddConditional, whole.start⟩
  | some branches =>
    if splicing then
      let spliced := (selectBranch? features branches).elim [] splicedForms
      match below with
      | frame :: further =>
        match frame.collect? spliced with
        | some filled => .ok (.reading (filled :: further))
        | none => .error ⟨.splicedOutside, start.start⟩
      | [] => .error ⟨.splicedOutside, start.start⟩
    else
      match selectBranch? features branches with
      | some form => deliver below form
      | none => .ok (.reading below)

def closeFrame (features : Features) (delimiter : Delimiter) (token : Span) :
    List Frame → Except ReadFault ReadState
  | .group shape start items :: below =>
    if shape.delimiter = delimiter then
      deliver below (.group shape items.reverse (start.merge token) [])
    else .error ⟨.unmatched delimiter, token.start⟩
  | .map start items :: below =>
    if delimiter = .curly then
      let span := start.merge token
      match pairs? items.reverse with
      | some entries => deliver below (.map entries span [])
      | none => .error ⟨.oddMap, span.start⟩
    else .error ⟨.unmatched delimiter, token.start⟩
  | .branches splicing start opening items :: below =>
    if delimiter = .paren then
      closeBranches features splicing start (opening.merge token) items.reverse below
    else .error ⟨.unmatched delimiter, token.start⟩
  | _ => .error ⟨.unmatched delimiter, token.start⟩

def lexemeAfter (count : Nat) (lexeme : String) : String :=
  String.ofList (lexeme.toList.drop count)

def lexemeInside (count : Nat) (lexeme : String) : String :=
  String.ofList (lexeme.toList.drop count).dropLast

def symbolAtom (lexeme : String) : Atom :=
  if lexeme = "nil" then .nil
  else if lexeme = "true" then .bool true
  else if lexeme = "false" then .bool false
  else .symbol lexeme

def shift (features : Features) (frames : List Frame) (token : Token) :
    Except ReadFault ReadState :=
  let start := token.span
  let atom (atom : Atom) := deliver frames (.atom atom start [])
  let opened (frame : Frame) : Except ReadFault ReadState := .ok (.reading (frame :: frames))
  match token.kind with
  | .opensGroup shape => opened (.group shape start [])
  | .opensMap => opened (.map start [])
  | .closes delimiter => closeFrame features delimiter start frames
  | .sigil sigil => opened (.mark (.sigil sigil) start)
  | .metadata => opened (.metadata start)
  | .discard => opened .discard
  | .conditional splicing => opened (.condition splicing start)
  | .namespacedMap =>
    opened (.namespacedMap (String.ofList ((token.lexeme.toList.drop 1).dropWhile (· == ':'))) start)
  | .tagged => opened (.mark (.tag (lexemeAfter 1 token.lexeme)) start)
  | .symbolicValue => atom (.symbolicValue (lexemeAfter 2 token.lexeme))
  | .string =>
    match unescape (lexemeInside 1 token.lexeme) with
    | .ok text => atom (.string text)
    | .error character => .error ⟨.invalidEscape character, start.start⟩
  | .regex => atom (.regex (lexemeInside 2 token.lexeme))
  | .character => atom (.character (lexemeAfter 1 token.lexeme))
  | .number => atom (.number token.lexeme)
  | .keyword => atom (.keyword (lexemeAfter 1 token.lexeme))
  | .symbol => atom (symbolAtom token.lexeme)

/-- Reads on from the given frames to the end of one form, or to a fault, and
tells what is left. The mark of a conditional must be followed at once by a
list; another token there stays unread. Errors at the end of the source point
to its byte size. -/
def readFrom (features : Features) (size : Nat) :
    List Frame → List LexItem → Option (Except ReadFault Form × List LexItem)
  | [], [] => none
  | .condition _ start :: _, [] => some (.error ⟨.oddConditional, start.start⟩, [])
  | frame :: _, [] => some (.error ⟨.unexpectedEnd frame.wanted, size⟩, [])
  | _, .fault error span :: rest => some (.error ⟨.lexical error, span.start⟩, rest)
  | .condition splicing start :: below, .token lexed :: rest =>
    if lexed.kind = .opensGroup .list then
      readFrom features size (.branches splicing start lexed.span [] :: below) rest
    else some (.error ⟨.oddConditional, start.start⟩, .token lexed :: rest)
  | frames, .token lexed :: rest =>
    match shift features frames lexed with
    | .error fault => some (.error fault, rest)
    | .ok (.done form) => some (.ok form, rest)
    | .ok (.reading frames) => readFrom features size frames rest

/-- The innermost construct is a conditional whose list has not begun. -/
def awaitsList : List Frame → Bool
  | .condition _ _ :: _ => true
  | _ => false

theorem awaitsList_eq_true {frames : List Frame} (awaits : awaitsList frames = true) :
    ∃ splicing start below, frames = .condition splicing start :: below := by
  unfold awaitsList at awaits
  split at awaits
  · exact ⟨_, _, _, rfl⟩
  · contradiction

theorem readFrom_rest {features : Features} {size : Nat} {frames : List Frame}
    {items rest : List LexItem} {outcome : Except ReadFault Form}
    (read : readFrom features size frames items = some (outcome, rest))
    (nonempty : items ≠ []) :
    rest.length ≤ items.length ∧ (awaitsList frames = false → rest.length < items.length) := by
  fun_induction readFrom features size frames items with
  | case1 => simp at nonempty
  | case2 => simp at nonempty
  | case3 => simp at nonempty
  | case4 =>
    simp only [Option.some.injEq, Prod.mk.injEq] at read
    obtain ⟨-, rfl⟩ := read
    simp
  | case5 splicing start below lexed tail isList ih =>
    by_cases empty : tail = []
    · subst empty
      simp [readFrom] at read
      obtain ⟨-, rfl⟩ := read
      simp
    · have := (ih read empty).1
      simp; omega
  | case6 =>
    simp only [Option.some.injEq, Prod.mk.injEq] at read
    obtain ⟨-, rfl⟩ := read
    simp [awaitsList]
  | case7 =>
    simp only [Option.some.injEq, Prod.mk.injEq] at read
    obtain ⟨-, rfl⟩ := read
    simp
  | case8 =>
    simp only [Option.some.injEq, Prod.mk.injEq] at read
    obtain ⟨-, rfl⟩ := read
    simp
  | case9 frames lexed tail _ opened _ ih =>
    by_cases empty : tail = []
    · subst empty
      have : rest = [] := by
        unfold readFrom at read
        split at read <;> simp_all
      simp [this]
    · have := (ih read empty).1
      simp; omega

def nextForm? (features : Features) (size : Nat) (items : List LexItem) :
    Option (Except ReadFault Form × List LexItem) :=
  readFrom features size [] items

theorem nextForm?_rest {features : Features} {size : Nat} {items rest : List LexItem}
    {outcome : Except ReadFault Form}
    (read : nextForm? features size items = some (outcome, rest)) :
    rest.length < items.length := by
  by_cases empty : items = []
  · subst empty
    simp [nextForm?, readFrom] at read
  · exact (readFrom_rest read empty).2 rfl

/-- What reading yields form by form, going on after each fault with what the
fault left unread. -/
def readOutcomes (features : Features) (size : Nat) (items : List LexItem) :
    List (Except ReadFault Form) :=
  match _read : nextForm? features size items with
  | none => []
  | some (outcome, rest) => outcome :: readOutcomes features size rest
termination_by items.length
decreasing_by exact nextForm?_rest _read

def ReadFault.locate (text : List Char) (fault : ReadFault) : ReadError :=
  ⟨fault.cause, (LineIndex.ofText text).locate text fault.offset⟩

def readEach (features : Features) (source : String) : List (Except ReadError Form) :=
  let text := source.toList
  (readOutcomes features (Text.width text) (lex text)).map (·.mapError (·.locate text))

def readAll (features : Features) (source : String) : Except ReadError (List Form) :=
  (readEach features source).mapM id

end VarDoc
