import VarDoc.Meta.OfForm
import VarDoc.Source.Location

/-! Definition forms: the vars that a top-level form interns, with the metadata
that evaluating it would attach. -/

set_option autoImplicit false

namespace VarDoc

/-- Where definitions stand: the namespace they belong to, the file as it is
recorded, and the text that locations are taken in. -/
structure Site where
  space : String
  file : String
  text : List Char
  lines : LineIndex

namespace Site

def ofText (space file source : String) : Site :=
  ⟨space, file, source.toList, LineIndex.ofText source.toList⟩

/-- The metadata that every var carries, over whatever it was given. -/
def identify (site : Site) (name : String) (span : Span) (metadata : Metadata) : Metadata :=
  let location := site.lines.locate site.text span.start
  metadata.insertAll
    [("name", .symbol name), ("ns", .namespaceRef site.space), ("file", .text site.file),
     ("line", .int (Int64.ofNat location.line)), ("column", .int (Int64.ofNat location.column))]

def className (site : Site) (name : String) : String :=
  String.ofList (site.space.toList.map fun c => if c = '-' then '_' else c) ++ "." ++ name

end Site

abbrev Definition := String × Metadata

namespace Definition

/-- Argument lists are kept as code, with or without a quote around them. -/
def arglistsValue (form : Form) : Value :=
  let inner := match form with
    | .marked (.sigil .quote) inner _ _ => inner
    | _ => form
  match inner with
  | .group .list items _ _ | .group .vector items _ _ => .seq (items.map .code)
  | _ => Value.ofForm inner

def entryValue (key : String) (form : Form) : Value :=
  if key = "inline" ∨ key = "inline-arities" then .function form
  else if key = "arglists" then arglistsValue form
  else Value.ofForm form

def mergeEntries (metadata : Metadata) (entries : List (Form × Form)) : Metadata :=
  metadata.insertAll
    (entries.filterMap fun (key, form) => key.keyword?.map fun name => (name, entryValue name form))

def named? (form : Form) : Option (String × Metadata) :=
  form.symbol?.map fun name => (name, mergeEntries ∅ form.metadata)

def firstNamed? (forms : List Form) : Option (String × Metadata) := forms.head?.bind named?

def takeDoc (metadata : Metadata) (forms : List Form) : Metadata × List Form :=
  match forms.head?.bind Form.string? with
  | some doc => (metadata.insert "doc" (.text doc), forms.tail)
  | none => (metadata, forms)

def takeAttributes (metadata : Metadata) (forms : List Form) : Metadata × List Form :=
  match forms.head?.bind Form.map? with
  | some entries => (mergeEntries metadata entries, forms.tail)
  | none => (metadata, forms)

def codeSeq (forms : List Form) : Value := .seq (forms.map .code)

/-- `(def name)`, `(def name init)` or `(def name "doc" init)`. -/
def ofVar (site : Site) (span : Span) (arguments : List Form) : List Definition :=
  match firstNamed? arguments with
  | none => []
  | some (name, metadata) =>
    let documented := if arguments.length = 3 then (takeDoc metadata arguments.tail).1 else metadata
    [(name, site.identify name span documented)]

/-- The parameter vectors of a function, and the map of attributes that may
follow several arities. -/
def signatures (forms : List Form) : List Form × List (Form × Form) :=
  match forms with
  | first :: _ =>
    if first.isVector then ([first], [])
    else
      (forms.filterMap fun arity => (arity.list?.bind List.head?).filter Form.isVector,
        (forms.getLast?.bind Form.map?).getD [])
  | [] => ([], [])

inductive FunctionKind where
  | openFunction
  | privateFunction
  | macroFunction
  deriving DecidableEq, Repr

def FunctionKind.flag : FunctionKind → List (String × Value)
  | .openFunction => []
  | .privateFunction => [("private", .bool true)]
  | .macroFunction => [("macro", .bool true)]

/-- Functions and macros. Argument lists given in the metadata win over the
parameter vectors. -/
def ofFunction (site : Site) (span : Span) (kind : FunctionKind) (arguments : List Form) :
    List Definition :=
  match firstNamed? arguments with
  | none => []
  | some (name, written) =>
    let (documented, afterDoc) := takeDoc written arguments.tail
    let (attributed, body) := takeAttributes documented afterDoc
    let (parameters, trailing) := signatures body
    let merged := mergeEntries attributed trailing
    let complete :=
      if merged.contains "arglists" then merged else merged.insert "arglists" (codeSeq parameters)
    [(name, site.identify name span (complete.insertAll kind.flag))]

def ofMultimethod (site : Site) (span : Span) (arguments : List Form) : List Definition :=
  match firstNamed? arguments with
  | none => []
  | some (name, written) =>
    let (documented, afterDoc) := takeDoc written arguments.tail
    [(name, site.identify name span (takeAttributes documented afterDoc).1)]

def ofDeclare (site : Site) (span : Span) (arguments : List Form) : List Definition :=
  (arguments.filterMap named?).map fun (name, metadata) =>
    (name, site.identify name span (metadata.insert "declared" (.bool true)))

def dropOptions : List Form → List Form
  | key :: value :: rest => if key.keyword?.isSome then dropOptions rest else key :: value :: rest
  | forms => forms

def ofSignature (site : Site) (protocol : String) (signature : Form) : Option Definition :=
  signature.list?.bind fun items =>
    (firstNamed? items).map fun (name, written) =>
      let arguments := items.tail
      let listed := written.insert "arglists" (codeSeq (arguments.filter Form.isVector))
      let documented := match arguments.reverse.findSome? Form.string? with
        | some doc => listed.insert "doc" (.text doc)
        | none => listed
      (name, site.identify name signature.span
        (documented.insert "protocol" (.varRef site.space protocol)))

def ofProtocol (site : Site) (span : Span) (arguments : List Form) : List Definition :=
  match firstNamed? arguments with
  | none => []
  | some (name, written) =>
    let (documented, rest) := takeDoc written arguments.tail
    (name, site.identify name span documented) ::
      (dropOptions rest).filterMap (ofSignature site name)

def factory (site : Site) (span : Span) (name doc : String) (parameters : Form) : Definition :=
  (name, site.identify name span
    (Dict.ofList [("arglists", codeSeq [parameters]), ("doc", .text doc)]))

/-- The factory functions of a type; a record has one that takes a map. -/
def ofType (site : Site) (span : Span) (isRecord : Bool) (arguments : List Form) :
    List Definition :=
  match arguments with
  | nameForm :: fields :: _ =>
    match nameForm.symbol?, fields.isVector with
    | some name, true =>
      let compiled := site.className name
      let positional := factory site span ("->" ++ name)
        ("Positional factory function for class " ++ compiled ++ ".") fields
      let parameters : Form :=
        .group .vector [.atom (.symbol "m") fields.span []] fields.span []
      let fromMap := factory site span ("map->" ++ name)
        ("Factory function for class " ++ compiled ++
          ", taking a map of keywords to field values.") parameters
      if isRecord then [positional, fromMap] else [positional]
    | _, _ => []
  | _ => []

def coreName (head : String) : String :=
  let core := "clojure.core/".toList
  if core.isPrefixOf head.toList then String.ofList (head.toList.drop core.length) else head

/-- The vars that a top-level form interns, in order. -/
def ofForm (site : Site) (form : Form) : List Definition :=
  match form.list?, form.head? with
  | some items, some head =>
    let arguments := items.tail
    match coreName head with
    | "def" => ofVar site form.span arguments
    | "defn" => ofFunction site form.span .openFunction arguments
    | "defn-" => ofFunction site form.span .privateFunction arguments
    | "defmacro" => ofFunction site form.span .macroFunction arguments
    | "defmulti" => ofMultimethod site form.span arguments
    | "defonce" => ofVar site form.span (arguments.take 2)
    | "declare" => ofDeclare site form.span arguments
    | "defprotocol" => ofProtocol site form.span arguments
    | "defrecord" => ofType site form.span true arguments
    | "deftype" => ofType site form.span false arguments
    | _ => []
  | _, _ => []

end Definition

end VarDoc
