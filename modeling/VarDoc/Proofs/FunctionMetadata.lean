import VarDoc.Meta.Record
import VarDoc.Proofs.MetadataEntries

/-! The metadata of functions and macros. A definition is written in parts, of
which most may be missing, and each part gives some of the metadata. The main
statement says for every key which part its value comes from. -/

set_option autoImplicit false

namespace VarDoc

structure Holding {α : Type} (view? : Form → Option α) where
  form : Form
  content : α
  holds : view? form = some content

namespace Form

variable {form : Form}

theorem string?_of_map? {entries : List (Form × Form)} (holds : form.map? = some entries) :
    form.string? = none := by
  cases form <;> simp_all [map?, string?]

theorem string?_of_vector? {items : List Form} (holds : form.vector? = some items) :
    form.string? = none ∧ form.map? = none := by
  cases form <;> simp_all [vector?, string?, map?]

theorem string?_of_list? {items : List Form} (holds : form.list? = some items) :
    form.string? = none ∧ form.map? = none ∧ form.isVector = false := by
  cases form with
  | group shape => cases shape <;> simp_all [list?, string?, map?, isVector, vector?]
  | atom | map | marked => simp [list?] at holds

theorem list?_of_map? {entries : List (Form × Form)} (holds : form.map? = some entries) :
    form.list? = none ∧ form.isVector = false := by
  cases form <;> simp_all [map?, list?, isVector, vector?]

end Form

namespace Definition

inductive Unquotes : Form → Form → Prop where
  | quoted {inner : Form} {span : Span} {metadata : List (Form × Form)} :
      Unquotes (.marked (.sigil .quote) inner span metadata) inner
  | bare {form : Form}
      (unquoted : ∀ inner span metadata, form ≠ .marked (.sigil .quote) inner span metadata) :
      Unquotes form form

inductive Lists : Form → List Form → Prop where
  | list {items : List Form} {span : Span} {metadata : List (Form × Form)} :
      Lists (.group .list items span metadata) items
  | vector {items : List Form} {span : Span} {metadata : List (Form × Form)} :
      Lists (.group .vector items span metadata) items

/-- What is written under a key means this value. Functions for the compiler stay
as they are, argument lists are code with or without a quote around them, and all
else is the data that it denotes. -/
inductive Means (key : String) (form : Form) : Value → Prop where
  | function (compiled : key ∈ ["inline", "inline-arities"]) : Means key form (.function form)
  | arglists {inner : Form} {items : List Form} (isArglists : key = "arglists")
      (unquotes : Unquotes form inner) (lists : Lists inner items) :
      Means key form (.seq (items.map .code))
  | unlisted {inner : Form} (isArglists : key = "arglists") (unquotes : Unquotes form inner)
      (other : ∀ items, ¬ Lists inner items) : Means key form (.ofForm inner)
  | data (plain : key ∉ ["inline", "inline-arities", "arglists"]) : Means key form (.ofForm form)

theorem exists_unquotes (form : Form) : ∃ inner, Unquotes form inner := by
  by_cases quoted : ∃ inner span metadata, form = .marked (.sigil .quote) inner span metadata
  · obtain ⟨inner, span, metadata, rfl⟩ := quoted
    exact ⟨inner, .quoted⟩
  · simp only [not_exists] at quoted
    exact ⟨form, .bare quoted⟩

theorem arglistsValue_of_lists {form inner : Form} {items : List Form}
    (unquotes : Unquotes form inner) (lists : Lists inner items) :
    arglistsValue form = .seq (items.map .code) := by
  cases unquotes with
  | quoted => cases lists <;> rfl
  | bare => cases lists <;> rfl

theorem arglistsValue_of_unlisted {form inner : Form} (unquotes : Unquotes form inner)
    (other : ∀ items, ¬ Lists inner items) : arglistsValue form = .ofForm inner := by
  cases unquotes with
  | quoted =>
    cases inner with
    | group shape items =>
      cases shape with
      | list => exact absurd .list (other items)
      | vector => exact absurd .vector (other items)
      | set | function => rfl
    | atom | map | marked => rfl
  | bare unquoted =>
    cases form with
    | group shape items =>
      cases shape with
      | list => exact absurd .list (other items)
      | vector => exact absurd .vector (other items)
      | set | function => rfl
    | marked mark inner span metadata =>
      rcases mark with (_ | _) | _
      · exact absurd rfl (unquoted inner span metadata)
      all_goals rfl
    | atom | map => rfl

theorem means_iff {key : String} {form : Form} {value : Value} :
    Means key form value ↔ entryValue key form = value := by
  constructor
  · intro means
    cases means with
    | function compiled => exact if_pos (by simpa using compiled)
    | arglists isArglists unquotes lists =>
      subst isArglists
      exact arglistsValue_of_lists unquotes lists
    | unlisted isArglists unquotes other =>
      subst isArglists
      exact arglistsValue_of_unlisted unquotes other
    | data plain =>
      simp only [List.mem_cons, List.not_mem_nil, or_false, not_or] at plain
      rw [entryValue, if_neg (by simp [plain]), if_neg plain.2.2]
  · rintro rfl
    unfold entryValue
    split
    next compiled => exact .function (by simpa using compiled)
    next apart =>
      split
      next isArglists =>
        obtain ⟨inner, unquotes⟩ := exists_unquotes form
        by_cases listed : ∃ items, Lists inner items
        · obtain ⟨items, lists⟩ := listed
          rw [arglistsValue_of_lists unquotes lists]
          exact .arglists isArglists unquotes lists
        · rw [arglistsValue_of_unlisted unquotes (not_exists.1 listed)]
          exact .unlisted isArglists unquotes (not_exists.1 listed)
      next other =>
        refine .data ?_
        simp only [not_or] at apart
        simp [apart, other]

theorem writtenValue?_eq_some_iff {entries : List (Form × Form)} {key : String} {value : Value} :
    writtenValue? entries key = some value ↔
      ∃ form, Form.lastValue? entries key = some form ∧ Means key form value := by
  simp only [writtenValue?, Option.map_eq_some_iff, means_iff]

theorem findSome?_reverse_eq_none_iff {α : Type} {options : List (Option α)} :
    options.reverse.findSome? id = none ↔
      ∀ (index : Nat) other, options[index]? ≠ some (some other) := by
  simp only [List.findSome?_eq_none_iff, List.mem_reverse, id_eq]
  constructor
  · intro nothing index other given
    cases nothing _ (List.mem_of_getElem? given)
  · intro nothing option listed
    obtain ⟨index, given⟩ := List.mem_iff_getElem?.1 listed
    rw [Option.eq_none_iff_forall_ne_some]
    rintro other rfl
    exact nothing index other given

theorem findSome?_reverse_eq_some_iff {α : Type} {options : List (Option α)} {value : α} :
    options.reverse.findSome? id = some value ↔
      ∃ index : Nat, options[index]? = some (some value) ∧
        ∀ later other, index < later → options[later]? ≠ some (some other) := by
  induction options with
  | nil => simp
  | cons first rest ih =>
    rw [List.reverse_cons, List.findSome?_append, Option.or_eq_some_iff, ih,
      findSome?_reverse_eq_none_iff]
    constructor
    · rintro (⟨index, given, highest⟩ | ⟨nothing, given⟩)
      · refine ⟨index + 1, given, ?_⟩
        rintro (_ | later) other above
        · contradiction
        · exact highest later other (Nat.lt_of_succ_lt_succ above)
      · refine ⟨0, by simpa using given, ?_⟩
        rintro (_ | later) other above
        · contradiction
        · exact nothing later other
    · rintro ⟨_ | index, given, highest⟩
      · refine .inr ⟨fun later other => highest (later + 1) other (Nat.succ_pos later), ?_⟩
        simpa using given
      · exact .inl ⟨index, given, fun later other above =>
          highest (later + 1) other (Nat.succ_lt_succ above)⟩

namespace FunctionKind

def word : FunctionKind → String
  | .openFunction => "defn"
  | .privateFunction => "defn-"
  | .macroFunction => "defmacro"

def sets (kind : FunctionKind) (key : String) : Bool :=
  match kind with
  | .openFunction => false
  | .privateFunction => key = "private"
  | .macroFunction => key = "macro"

end FunctionKind

structure Arity where
  form : Form
  parameters : Holding Form.vector?
  body : List Form
  holds : form.list? = some (parameters.form :: body)

/-- What follows the name of a function and what is said about it: parameters with
a body, or several of these in lists of their own, with attributes behind them. -/
inductive FunctionBody where
  | single (parameters : Holding Form.vector?) (body : List Form)
  | several (arities : List Arity) (trailing : Option (Holding Form.map?))

namespace FunctionBody

def forms : FunctionBody → List Form
  | .single parameters body => parameters.form :: body
  | .several arities trailing => arities.map Arity.form ++ (trailing.map Holding.form).toList

def parameters : FunctionBody → List Form
  | .single parameters _ => [parameters.form]
  | .several arities _ => arities.map fun arity => arity.parameters.form

/-- The attributes behind several arities. A map in the body of a single one is
none. -/
def trailing : FunctionBody → List (Form × Form)
  | .single _ _ => []
  | .several _ trailing => (trailing.map Holding.content).getD []

end FunctionBody

structure FunctionLayout where
  kind : FunctionKind
  head : Holding Form.symbol?
  name : Holding Form.symbol?
  doc : Option (Holding Form.string?)
  leading : Option (Holding Form.map?)
  body : FunctionBody
  calls : head.content = kind.word ∨ head.content = "clojure.core/" ++ kind.word

namespace FunctionLayout

variable (layout : FunctionLayout)

def arguments : List Form :=
  layout.name.form :: ((layout.doc.map Holding.form).toList ++
    ((layout.leading.map Holding.form).toList ++ layout.body.forms))

/-- What a part of the definition gives for a key, with the priority of the part.
Of several entries under one key in a part the last counts. -/
inductive Gives (site : Site) (span : Span) (key : String) : Nat → Value → Prop where
  | name {form : Form} {value : Value}
      (last : Form.lastValue? layout.name.form.metadata key = some form) (means : Means key form value) :
      Gives site span key 0 value
  | doc {doc : Holding Form.string?} (isDoc : key = "doc") (written : layout.doc = some doc) :
      Gives site span key 1 (.text doc.content)
  | leading {attributes : Holding Form.map?} {form : Form} {value : Value}
      (written : layout.leading = some attributes)
      (last : Form.lastValue? attributes.content key = some form) (means : Means key form value) :
      Gives site span key 2 value
  | trailing {form : Form} {value : Value}
      (last : Form.lastValue? layout.body.trailing key = some form) (means : Means key form value) :
      Gives site span key 3 value
  | kind (sets : layout.kind.sets key = true) : Gives site span key 4 (.bool true)
  | identity {value : Value}
      (identifies : (site.identity layout.name.content span).get? key = some value) :
      Gives site span key 5 value

/-- The value that a key has in the end: that of the highest part which gives one.
Argument lists that no part gives are the parameters. -/
inductive Decides (site : Site) (span : Span) (key : String) : Value → Prop where
  | given {priority : Nat} {value : Value} (gives : layout.Gives site span key priority value)
      (highest : ∀ higher other, priority < higher → ¬ layout.Gives site span key higher other) :
      Decides site span key value
  | derived (isArglists : key = "arglists")
      (nowhere : ∀ priority other, ¬ layout.Gives site span key priority other) :
      Decides site span key (.seq (layout.body.parameters.map .code))

def sources (site : Site) (span : Span) (key : String) : List (Option Value) :=
  [writtenValue? layout.name.form.metadata key,
    if key = "doc" then layout.doc.map fun doc => .text doc.content else none,
    writtenValue? ((layout.leading.map Holding.content).getD []) key,
    writtenValue? layout.body.trailing key,
    if layout.kind.sets key then some (.bool true) else none,
    (site.identity layout.name.content span).get? key]

def value? (site : Site) (span : Span) (key : String) : Option Value :=
  ((layout.sources site span key).reverse.findSome? id).or
    (if key = "arglists" then some (codeSeq layout.body.parameters) else none)

variable {layout}

theorem gives_iff {site : Site} {span : Span} {key : String} {priority : Nat} {value : Value} :
    layout.Gives site span key priority value ↔
      (layout.sources site span key)[priority]? = some (some value) := by
  constructor
  · intro gives
    cases gives with
    | name last means | trailing last means =>
      exact congrArg some (writtenValue?_eq_some_iff.2 ⟨_, last, means⟩)
    | doc isDoc written => simp [sources, isDoc, written]
    | leading written last means =>
      rw [sources, written]
      exact congrArg some (writtenValue?_eq_some_iff.2 ⟨_, last, means⟩)
    | kind sets => simp [sources, sets]
    | identity identifies => exact congrArg some identifies
  · intro listed
    rcases priority with _ | _ | _ | _ | _ | _ | priority
    · obtain ⟨form, last, means⟩ := writtenValue?_eq_some_iff.1 (Option.some.inj listed)
      exact .name last means
    · have given := Option.some.inj listed
      split at given
      next isDoc =>
        obtain ⟨doc, written, rfl⟩ := Option.map_eq_some_iff.1 given
        exact .doc isDoc written
      · contradiction
    · obtain ⟨form, last, means⟩ := writtenValue?_eq_some_iff.1 (Option.some.inj listed)
      cases written : layout.leading with
      | none =>
        rw [written] at last
        contradiction
      | some attributes =>
        rw [written] at last
        exact .leading written last means
    · obtain ⟨form, last, means⟩ := writtenValue?_eq_some_iff.1 (Option.some.inj listed)
      exact .trailing last means
    · have given := Option.some.inj listed
      split at given
      next sets =>
        cases given
        exact .kind sets
      · contradiction
    · exact .identity (Option.some.inj listed)
    · contradiction

theorem decides_iff {site : Site} {span : Span} {key : String} {value : Value} :
    layout.Decides site span key value ↔ layout.value? site span key = some value := by
  rw [value?, Option.or_eq_some_iff, findSome?_reverse_eq_some_iff, findSome?_reverse_eq_none_iff]
  simp only [ne_eq, ← gives_iff]
  constructor
  · rintro (⟨gives, highest⟩ | ⟨isArglists, nowhere⟩)
    · exact .inl ⟨_, gives, highest⟩
    · exact .inr ⟨nowhere, if_pos isArglists⟩
  · rintro (⟨priority, gives, highest⟩ | ⟨nowhere, parameters⟩)
    · exact .given gives highest
    · split at parameters
      next isArglists =>
        cases parameters
        exact .derived isArglists nowhere
      · contradiction

end FunctionLayout

theorem takeDoc_layout (metadata : Metadata) (doc : Option (Holding Form.string?))
    {rest : List Form} (other : rest.head?.bind Form.string? = none) :
    ∃ documented, takeDoc metadata ((doc.map Holding.form).toList ++ rest) = (documented, rest) ∧
      ∀ key, documented.get? key =
        (if key = "doc" then doc.map fun doc => .text doc.content else none).or (metadata.get? key) := by
  cases doc with
  | none => exact ⟨metadata, by simp [takeDoc, other], fun key => by simp⟩
  | some doc =>
    refine ⟨metadata.insert "doc" (.text doc.content), by simp [takeDoc, doc.holds], fun key => ?_⟩
    rw [Dict.get?_insert]
    by_cases isDoc : key = "doc"
    · simp [isDoc]
    · simp [isDoc, Ne.symm isDoc]

theorem string?_forms (body : FunctionBody) : body.forms.head?.bind Form.string? = none := by
  cases body with
  | single parameters => exact (Form.string?_of_vector? parameters.holds).1
  | several arities trailing =>
    rcases arities with _ | ⟨arity, _⟩
    · cases trailing with
      | none => rfl
      | some trailing => exact Form.string?_of_map? trailing.holds
    · exact (Form.string?_of_list? arity.holds).1

def parameters? (form : Form) : Option Form := (form.list?.bind List.head?).filter Form.isVector

theorem signatures_of_other {forms : List Form} (other : forms.head?.any Form.isVector = false) :
    signatures forms = (forms.filterMap parameters?, (forms.getLast?.bind Form.map?).getD []) := by
  cases forms with
  | nil => rfl
  | cons first rest =>
    have unlike : ¬ first.isVector = true := Bool.eq_false_iff.1 other
    rw [signatures, if_neg unlike]
    rfl

theorem filterMap_arities (arities : List Arity) :
    (arities.map Arity.form).filterMap parameters? = arities.map fun arity => arity.parameters.form := by
  have each (arity : Arity) : parameters? arity.form = some arity.parameters.form := by
    simp [parameters?, arity.holds, Form.isVector, arity.parameters.holds, Option.filter]
  induction arities with
  | nil => rfl
  | cons arity rest ih => rw [List.map_cons, List.filterMap_cons_some (each arity), ih, List.map_cons]

theorem getLast?_arities (arities : List Arity) :
    (arities.map Arity.form).getLast?.bind Form.map? = none := by
  rw [Option.bind_eq_none_iff]
  intro last found
  obtain ⟨arity, -, rfl⟩ := List.mem_map.1 (List.mem_of_getLast? found)
  exact (Form.string?_of_list? arity.holds).2.1

theorem signatures_forms (body : FunctionBody) :
    signatures body.forms = (body.parameters, body.trailing) := by
  cases body with
  | single parameters =>
    simp [FunctionBody.forms, signatures, Form.isVector, parameters.holds, FunctionBody.parameters,
      FunctionBody.trailing]
  | several arities trailing =>
    have other : (FunctionBody.several arities trailing).forms.head?.any Form.isVector = false := by
      rcases arities with _ | ⟨arity, _⟩
      · cases trailing with
        | none => rfl
        | some trailing => exact (Form.list?_of_map? trailing.holds).2
      · exact (Form.string?_of_list? arity.holds).2.2
    rw [signatures_of_other other, FunctionBody.forms, List.filterMap_append, filterMap_arities]
    cases trailing with
    | none =>
      rw [Option.map_none, Option.toList_none, List.append_nil, List.filterMap_nil, List.append_nil,
        getLast?_arities]
      rfl
    | some trailing =>
      have skipped : parameters? trailing.form = none := by
        simp [parameters?, (Form.list?_of_map? trailing.holds).1]
      simp [skipped, trailing.holds, FunctionBody.parameters, FunctionBody.trailing]

theorem takeAttributes_of_other (metadata : Metadata) {forms : List Form}
    (other : forms.head?.bind Form.map? = none) :
    takeAttributes metadata forms = (metadata, forms) := by
  simp [takeAttributes, other]

theorem takeAttributes_cons (metadata : Metadata) (attributes : Holding Form.map?)
    (rest : List Form) :
    takeAttributes metadata (attributes.form :: rest) =
      (mergeEntries metadata attributes.content, rest) := by
  simp [takeAttributes, attributes.holds]

/-- The attributes before the body and those behind it are merged in this order,
also where a single map is all that there is. -/
theorem merged_layout (metadata : Metadata) (leading : Option (Holding Form.map?))
    (body : FunctionBody) :
    ∃ attributed rest, takeAttributes metadata ((leading.map Holding.form).toList ++ body.forms) =
        (attributed, rest) ∧ (signatures rest).1 = body.parameters ∧
      ∀ key, (mergeEntries attributed (signatures rest).2).get? key =
        (writtenValue? body.trailing key).or
          ((writtenValue? ((leading.map Holding.content).getD []) key).or (metadata.get? key)) := by
  cases leading with
  | some leading =>
    refine ⟨_, _, takeAttributes_cons metadata leading body.forms, by rw [signatures_forms], fun key => ?_⟩
    rw [signatures_forms, get?_mergeEntries, get?_mergeEntries]
    rfl
  | none =>
    cases first : body.forms.head?.bind Form.map? with
    | none =>
      refine ⟨metadata, body.forms, takeAttributes_of_other metadata first, by rw [signatures_forms],
        fun key => ?_⟩
      rw [signatures_forms, get?_mergeEntries]
      rfl
    | some entries =>
      -- Only attributes without any arity before them begin with a map.
      cases body with
      | single parameters => simp [FunctionBody.forms, (Form.string?_of_vector? parameters.holds).2] at first
      | several arities trailing =>
        rcases arities with _ | ⟨arity, _⟩
        · cases trailing with
          | none => cases first
          | some trailing =>
            refine ⟨_, _, takeAttributes_cons metadata trailing [], rfl, fun key => ?_⟩
            exact get?_mergeEntries metadata trailing.content key
        · simp [FunctionBody.forms, (Form.string?_of_list? arity.holds).2.1] at first

theorem get?_flag (kind : FunctionKind) (metadata : Metadata) (key : String) :
    (metadata.insertAll kind.flag).get? key =
      (if kind.sets key then some (.bool true) else none).or (metadata.get? key) := by
  have single (flag : String) : (metadata.insert flag (.bool true)).get? key =
      (if key = flag then some (.bool true) else none).or (metadata.get? key) := by
    rw [Dict.get?_insert]
    by_cases same : key = flag
    · simp [same]
    · simp [same, Ne.symm same]
  cases kind with
  | openFunction => rfl
  | privateFunction =>
    change (metadata.insert "private" (.bool true)).get? key = _
    simpa [FunctionKind.sets] using single "private"
  | macroFunction =>
    change (metadata.insert "macro" (.bool true)).get? key = _
    simpa [FunctionKind.sets] using single "macro"

theorem get?_completed (metadata : Metadata) (parameters : List Form) (key : String) :
    (if metadata.contains "arglists" then metadata
      else metadata.insert "arglists" (codeSeq parameters)).get? key =
        (metadata.get? key).or (if key = "arglists" then some (codeSeq parameters) else none) := by
  by_cases isArglists : key = "arglists"
  · subst isArglists
    cases given : metadata.get? "arglists" with
    | none => simp [Dict.contains, given, Dict.get?_insert]
    | some value => simp [Dict.contains, given]
  · rw [if_neg isArglists, Option.or_none]
    split
    · rfl
    · rw [Dict.get?_insert, if_neg (Ne.symm isArglists)]

theorem ofForm_layout (site : Site) (layout : FunctionLayout) (span : Span)
    (metadata : List (Form × Form)) :
    ofForm site (.group .list (layout.head.form :: layout.arguments) span metadata) =
      ofFunction site span layout.kind layout.arguments := by
  have called : (Form.group .list (layout.head.form :: layout.arguments) span metadata).head? =
      some layout.head.content := layout.head.holds
  have known : coreName layout.head.content = layout.kind.word := by
    rcases layout.calls with plain | qualified
    · rw [plain]
      cases layout.kind <;> decide +kernel
    · rw [qualified]
      cases layout.kind <;> decide +kernel
  unfold ofForm
  simp only [Form.list?, called, known]
  cases layout.kind <;> rfl

theorem findSome?_cons_id {α : Type} (first : Option α) (rest : List (Option α)) :
    (first :: rest).findSome? id = first.or (rest.findSome? id) := by
  cases first <;> rfl

theorem get?_printed {metadata : Metadata} {forms : List Form}
    (given : metadata.get? "arglists" = some (codeSeq forms)) :
    (Record.normalize metadata).get? "arglists" =
      some (.seq (forms.map fun form => .text form.render)) := by
  have printed : Record.normalizeField "arglists" (codeSeq forms) =
      some (.seq (((forms.map Value.code).map Value.toText).map .text)) := rfl
  rw [Record.get?, Record.normalize, Dict.get?_filterMap, given, Option.bind_some, printed, List.map_map,
    List.map_map]
  rfl

/-- A definition of a function makes one var. Every key has the value of the first
of its sources that gives one: the identity of the var, the flag of its kind, the
attributes behind the arities, those before them, the documentation string, and the
metadata of the name. Argument lists that none of these gives are the parameter
vectors, and argument lists are printed when the metadata is stored. -/
theorem function_metadata_by_priority (site : Site) (layout : FunctionLayout) (span : Span)
    (metadata : List (Form × Form)) :
    ∃ interned, ofForm site (.group .list (layout.head.form :: layout.arguments) span metadata) =
        [(layout.name.content, interned)] ∧
      (∀ key value, interned.get? key = some value ↔ layout.Decides site span key value) ∧
      ∀ forms : List Form, interned.get? "arglists" = some (.seq (forms.map .code)) →
        (Record.normalize interned).get? "arglists" =
          some (.seq (forms.map fun form => .text form.render)) := by
  have named : firstNamed? layout.arguments =
      some (layout.name.content, mergeEntries ∅ layout.name.form.metadata) := by
    simp [firstNamed?, FunctionLayout.arguments, named?, layout.name.holds]
  have unstrung : ((layout.leading.map Holding.form).toList ++ layout.body.forms).head?.bind
      Form.string? = none := by
    cases given : layout.leading with
    | none => exact string?_forms layout.body
    | some leading => exact Form.string?_of_map? leading.holds
  obtain ⟨documented, docTaken, docGiven⟩ :=
    takeDoc_layout (mergeEntries ∅ layout.name.form.metadata) layout.doc unstrung
  obtain ⟨attributed, rest, attributesTaken, parameters, merged⟩ :=
    merged_layout documented layout.leading layout.body
  let complete := mergeEntries attributed (signatures rest).2
  let interned := site.identify layout.name.content span
    ((if complete.contains "arglists" then complete
      else complete.insert "arglists" (codeSeq (signatures rest).1)).insertAll layout.kind.flag)
  have made : ofForm site (.group .list (layout.head.form :: layout.arguments) span metadata) =
      [(layout.name.content, interned)] := by
    rw [ofForm_layout, ofFunction, named]
    simp only [FunctionLayout.arguments, List.tail_cons, docTaken, attributesTaken]
    rfl
  refine ⟨interned, made, fun key value => ?_, fun forms given => get?_printed given⟩
  rw [FunctionLayout.decides_iff]
  suffices interned.get? key = layout.value? site span key by rw [this]
  have empty : (∅ : Metadata).get? key = none := rfl
  rw [Site.get?_identify, get?_flag, get?_completed, merged, docGiven, get?_mergeEntries, empty, parameters]
  simp only [FunctionLayout.value?, FunctionLayout.sources, List.reverse_cons, List.reverse_nil,
    List.nil_append, List.cons_append, findSome?_cons_id, List.findSome?_nil, Option.or_none,
    Option.or_assoc]

def bareLeaf (leaf : Atom) : Form := .atom leaf ⟨0, 0⟩ []

def parameterVector (names : List String) : Form :=
  .group .vector (names.map fun name => bareLeaf (.symbol name)) ⟨0, 0⟩ []

def attributeMap (entries : List (String × Form)) : List (Form × Form) :=
  entries.map fun entry => (bareLeaf (.keyword entry.1), entry.2)

def bareArity (names : List String) : Arity where
  form := .group .list [parameterVector names, bareLeaf .nil] ⟨0, 0⟩ []
  parameters := ⟨parameterVector names, _, rfl⟩
  body := [bareLeaf .nil]
  holds := rfl

def layeredFunction : FunctionLayout where
  kind := .privateFunction
  head := ⟨bareLeaf (.symbol "clojure.core/defn-"), _, rfl⟩
  name := ⟨.atom (.symbol "f") ⟨0, 0⟩ (attributeMap [("added", bareLeaf (.string "1.0")),
    ("doc", bareLeaf (.string "on the name")), ("inline", bareLeaf (.symbol "g"))]), _, rfl⟩
  doc := some ⟨bareLeaf (.string "behind it"), _, rfl⟩
  leading := some ⟨.map (attributeMap [("since", bareLeaf (.number "2")),
    ("tag", bareLeaf (.symbol "T")), ("tag", bareLeaf (.symbol "U"))]) ⟨0, 0⟩ [], _, rfl⟩
  body := .several [bareArity ["a"], bareArity ["a", "b"]]
    (some ⟨.map (attributeMap [("since", bareLeaf (.number "3")), ("private", bareLeaf (.bool false)),
      ("line", bareLeaf (.number "99"))]) ⟨0, 0⟩ [], _, rfl⟩)
  calls := .inr rfl

/-- A macro of one arity, whose body begins with a map. Its name says what its
argument lists are. -/
def listedMacro : FunctionLayout where
  kind := .macroFunction
  head := ⟨bareLeaf (.symbol "defmacro"), _, rfl⟩
  name := ⟨.atom (.symbol "m") ⟨0, 0⟩ (attributeMap [("arglists", .marked (.sigil .quote)
    (.group .list [parameterVector ["x", "y"]] ⟨0, 0⟩ []) ⟨0, 0⟩ [])]), _, rfl⟩
  doc := none
  leading := none
  body := .single ⟨parameterVector ["x"], _, rfl⟩
    [.map (attributeMap [("since", bareLeaf (.number "1"))]) ⟨0, 0⟩ []]
  calls := .inl rfl

/-- Every part of the function gives a value, and wins where a lower part gives
one too. The map in the body of the macro gives nothing. -/
theorem layered_function_interned :
    let site := Site.ofText "demo" "demo.clj" "\n  (clojure.core/defn- f)"
    (∃ interned,
      ofForm site (.group .list (layeredFunction.head.form :: layeredFunction.arguments) ⟨3, 25⟩ []) =
        [("f", interned)] ∧
      interned.get? "added" = some (.text "1.0") ∧
      interned.get? "inline" = some (.function (bareLeaf (.symbol "g"))) ∧
      interned.get? "doc" = some (.text "behind it") ∧
      interned.get? "tag" = some (.symbol "U") ∧
      interned.get? "since" = some (.int 3) ∧
      interned.get? "private" = some (.bool true) ∧
      interned.get? "line" = some (.int 2) ∧
      interned.get? "arglists" =
        some (.seq [.code (parameterVector ["a"]), .code (parameterVector ["a", "b"])]) ∧
      (Record.normalize interned).get? "arglists" = some (.seq [.text "[a]", .text "[a b]"])) ∧
    ∃ interned, ofForm site (.group .list (listedMacro.head.form :: listedMacro.arguments) ⟨3, 25⟩ []) =
        [("m", interned)] ∧
      interned.get? "macro" = some (.bool true) ∧ interned.get? "since" = none ∧
      interned.get? "arglists" = some (.seq [.code (parameterVector ["x", "y"])]) := by
  intro site
  constructor
  · obtain ⟨interned, made, decided, printed⟩ :=
      function_metadata_by_priority site layeredFunction ⟨3, 25⟩ []
    have value (key : String) : interned.get? key = layeredFunction.value? site ⟨3, 25⟩ key :=
      Option.ext fun value => (decided key value).trans FunctionLayout.decides_iff
    have second : (site.lines.locate site.text 3).line = 2 := by decide +kernel
    have line := (value "line").trans (congrArg (fun line => some (Value.int (Int64.ofNat line))) second)
    have arglists : interned.get? "arglists" =
      some (.seq ([parameterVector ["a"], parameterVector ["a", "b"]].map .code)) := value "arglists"
    exact ⟨interned, made, value "added", value "inline", value "doc", value "tag", value "since",
      value "private", line, arglists, printed _ arglists⟩
  · obtain ⟨interned, made, decided, -⟩ := function_metadata_by_priority site listedMacro ⟨3, 25⟩ []
    have value (key : String) : interned.get? key = listedMacro.value? site ⟨3, 25⟩ key :=
      Option.ext fun value => (decided key value).trans FunctionLayout.decides_iff
    exact ⟨interned, made, value "macro", value "since", value "arglists"⟩

end Definition

end VarDoc
