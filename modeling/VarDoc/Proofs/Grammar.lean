import VarDoc.Form.Reader

/-! The grammar of source text over its tokens. An item reads as no form, one
form or several; which constructs may stand where is said here without any
reference to a reader that works through the tokens. -/

set_option autoImplicit false

namespace VarDoc

namespace Token

/-- The atom that a token is on its own. A string whose escapes have no meaning
is none. -/
def atom? (token : Token) : Option Atom :=
  match token.kind with
  | .symbolicValue => some (.symbolicValue (lexemeAfter 2 token.lexeme))
  | .string => (unescape (lexemeInside 1 token.lexeme)).toOption.map .string
  | .regex => some (.regex (lexemeInside 2 token.lexeme))
  | .character => some (.character (lexemeAfter 1 token.lexeme))
  | .number => some (.number token.lexeme)
  | .keyword => some (.keyword (lexemeAfter 1 token.lexeme))
  | .symbol => some (symbolAtom token.lexeme)
  | _ => none

def mark? (token : Token) : Option Mark :=
  match token.kind with
  | .sigil sigil => some (.sigil sigil)
  | .tagged => some (.tag (lexemeAfter 1 token.lexeme))
  | _ => none

/-- The namespace that the prefix of a map names; empty where it names none. -/
def spaceName (token : Token) : String :=
  String.ofList ((token.lexeme.toList.drop 1).dropWhile (· == ':'))

end Token

def entryForms (entries : List (Form × Form)) : List Form :=
  entries.flatMap fun entry => [entry.1, entry.2]

theorem mem_entryForms {entries : List (Form × Form)} {form : Form} :
    form ∈ entryForms entries ↔ ∃ entry ∈ entries, form = entry.1 ∨ form = entry.2 := by
  simp [entryForms]

inductive Describes : Form → List (Form × Form) → Prop where
  | symbol {name : String} {span : Span} {metadata : List (Form × Form)} :
    Describes (.atom (.symbol name) span metadata)
      [(.atom (.keyword "tag") span [], .atom (.symbol name) span metadata)]
  | string {text : String} {span : Span} {metadata : List (Form × Form)} :
    Describes (.atom (.string text) span metadata)
      [(.atom (.keyword "tag") span [], .atom (.string text) span metadata)]
  | keyword {name : String} {span : Span} {metadata : List (Form × Form)} :
    Describes (.atom (.keyword name) span metadata)
      [(.atom (.keyword name) span metadata, .atom (.bool true) span [])]
  | map {entries : List (Form × Form)} {span : Span} {metadata : List (Form × Form)} :
    Describes (.map entries span metadata) entries

def Enables (features : Features) (key : Form) : Prop :=
  ∃ name span metadata, key = .atom (.keyword name) span metadata ∧
    (name = "default" ∨ name ∈ features)

inductive Selects (features : Features) : List (Form × Form) → Option Form → Prop where
  | nothing : Selects features [] none
  | first {key form : Form} {rest : List (Form × Form)} (enabled : Enables features key) :
    Selects features ((key, form) :: rest) (some form)
  | next {key form : Form} {rest : List (Form × Form)} {selected : Option Form}
    (passed : ¬ Enables features key) (later : Selects features rest selected) :
    Selects features ((key, form) :: rest) selected

theorem Selects.mem {features : Features} {branches : List (Form × Form)} {form : Form}
    (selects : Selects features branches (some form)) : form ∈ entryForms branches := by
  generalize choice : some form = selected at selects
  induction selects with
  | nothing => cases choice
  | first =>
    cases choice
    exact mem_entryForms.2 ⟨_, List.mem_cons_self, .inr rfl⟩
  | next _ _ ih => exact List.mem_cons_of_mem _ (List.mem_cons_of_mem _ (ih choice))

/-- What a splice puts in its place: the elements of a list or a vector, and any
other form as it is. -/
inductive Splices : Option Form → List Form → Prop where
  | nothing : Splices none []
  | list {items : List Form} {span : Span} {metadata : List (Form × Form)} :
    Splices (some (.group .list items span metadata)) items
  | vector {items : List Form} {span : Span} {metadata : List (Form × Form)} :
    Splices (some (.group .vector items span metadata)) items
  | form {form : Form} (notList : form.list? = none) (notVector : form.vector? = none) :
    Splices (some form) [form]

/-- What a stretch of tokens is read as. An item and a sequence of items may
stand inside a collection or not; one form is always outside. -/
inductive Phrase where
  | item (collecting : Bool)
  | items (collecting : Bool)
  | one
  deriving DecidableEq, Repr

inductive Derives (features : Features) : Phrase → List Token → List Form → Prop where
  | atom {collecting : Bool} {token : Token} {leaf : Atom} (denotes : token.atom? = some leaf) :
    Derives features (.item collecting) [token] [.atom leaf token.span []]
  | group {collecting : Bool} {shape : Shape} {opening closing : Token} {body : List Token}
    {forms : List Form} (opens : opening.kind = .opensGroup shape)
    (inside : Derives features (.items true) body forms)
    (closes : closing.kind = .closes shape.delimiter) :
    Derives features (.item collecting) (opening :: (body ++ [closing]))
      [.group shape forms (opening.span.merge closing.span) []]
  | map {collecting : Bool} {opening closing : Token} {body : List Token}
    {entries : List (Form × Form)} (opens : opening.kind = .opensMap)
    (inside : Derives features (.items true) body (entryForms entries))
    (closes : closing.kind = .closes .curly) :
    Derives features (.item collecting) (opening :: (body ++ [closing]))
      [.map entries (opening.span.merge closing.span) []]
  | marked {collecting : Bool} {token : Token} {mark : Mark} {tokens : List Token} {form : Form}
    (marks : token.mark? = some mark) (inner : Derives features .one tokens [form]) :
    Derives features (.item collecting) (token :: tokens)
      [.marked mark form (token.span.merge form.span) []]
  | metadata {collecting : Bool} {token : Token} {first second : List Token}
    {description form : Form} {entries : List (Form × Form)} (marks : token.kind = .metadata)
    (described : Derives features .one first [description])
    (denotes : Describes description entries)
    (target : Derives features .one second [form]) :
    Derives features (.item collecting) (token :: (first ++ second))
      [form.withMetadata token.span entries]
  | namespacedMap {collecting : Bool} {token : Token} {tokens : List Token}
    {entries : List (Form × Form)} {span : Span} {metadata : List (Form × Form)}
    (marks : token.kind = .namespacedMap)
    (inner : Derives features .one tokens [.map entries span metadata]) :
    Derives features (.item collecting) (token :: tokens)
      [.map (entries.map fun (key, value) => (qualifyKey token.spaceName key, value))
        (token.span.merge span) []]
  | discard {collecting : Bool} {token : Token} {tokens : List Token} {form : Form}
    (marks : token.kind = .discard) (inner : Derives features .one tokens [form]) :
    Derives features (.item collecting) (token :: tokens) []
  | conditional {collecting : Bool} {token opening closing : Token} {body : List Token}
    {branches : List (Form × Form)} {selected : Option Form}
    (marks : token.kind = .conditional false) (opens : opening.kind = .opensGroup .list)
    (inside : Derives features (.items true) body (entryForms branches))
    (closes : closing.kind = .closes .paren) (selects : Selects features branches selected) :
    Derives features (.item collecting) (token :: opening :: (body ++ [closing])) selected.toList
  | splice {token opening closing : Token} {body : List Token} {branches : List (Form × Form)}
    {selected : Option Form} {forms : List Form}
    (marks : token.kind = .conditional true) (opens : opening.kind = .opensGroup .list)
    (inside : Derives features (.items true) body (entryForms branches))
    (closes : closing.kind = .closes .paren) (selects : Selects features branches selected)
    (spliced : Splices selected forms) :
    Derives features (.item true) (token :: opening :: (body ++ [closing])) forms
  | nil {collecting : Bool} : Derives features (.items collecting) [] []
  | cons {collecting : Bool} {first rest : List Token} {forms others : List Form}
    (head : Derives features (.item collecting) first forms)
    (tail : Derives features (.items collecting) rest others) :
    Derives features (.items collecting) (first ++ rest) (forms ++ others)
  | here {tokens : List Token} {form : Form}
    (item : Derives features (.item false) tokens [form]) : Derives features .one tokens [form]
  | later {skipped tokens : List Token} {form : Form}
    (nothing : Derives features (.item false) skipped [])
    (rest : Derives features .one tokens [form]) : Derives features .one (skipped ++ tokens) [form]

abbrev DerivesProgram (features : Features) (tokens : List Token) (forms : List Form) : Prop :=
  Derives features (.items false) tokens forms

end VarDoc
