import Mathlib.Data.List.Forall2
import VarDoc.Proofs.FunctionMetadata
import VarDoc.Proofs.QuotedValue

/-! Quotes in metadata. Where the value of an entry is quoted, the mark and the call
that it stands for give the same vars, and their metadata differs under the key of
the entry and nowhere else. -/

set_option autoImplicit false

namespace VarDoc

theorem optionRel_cases {α β : Type} {relation : α → β → Prop} {left : Option α} {right : Option β}
    (related : Option.Rel relation left right) : (left = none ∧ right = none) ∨
      ∃ one other, left = some one ∧ right = some other ∧ relation one other := by
  cases related with
  | none => exact .inl ⟨rfl, rfl⟩
  | some related => exact .inr ⟨_, _, rfl, rfl, related⟩

theorem optionRel_self {α : Type} {relation : α → α → Prop} (self : ∀ one, relation one one) :
    ∀ option : Option α, Option.Rel relation option option
  | none => .none
  | some one => .some (self one)

def SameOrEach {α : Type} (one other : α) (left right : Option α) : Prop :=
  left = right ∨ (left = some one ∧ right = some other)

section SameOrEach

variable {α β : Type} {one other : α} {left right : Option α}

theorem SameOrEach.or (first : SameOrEach one other left right) {left' right' : Option α}
    (second : SameOrEach one other left' right') :
    SameOrEach one other (left.or left') (right.or right') := by
  rcases first with rfl | ⟨rfl, rfl⟩
  · cases left with
    | none => exact second
    | some => exact .inl rfl
  · exact .inr ⟨rfl, rfl⟩

theorem SameOrEach.map (each : SameOrEach one other left right) (change : α → β) :
    SameOrEach (change one) (change other) (left.map change) (right.map change) := by
  rcases each with rfl | ⟨rfl, rfl⟩
  · exact .inl rfl
  · exact .inr ⟨rfl, rfl⟩

theorem SameOrEach.isSome (each : SameOrEach one other left right) : left.isSome = right.isSome := by
  rcases each with rfl | ⟨rfl, rfl⟩ <;> rfl

end SameOrEach

section Respelling

variable (quotation : Quotation) (key : String)

def EntryRespelled (entry other : Form × Form) : Prop :=
  entry = other ∨ (entry.1 = other.1 ∧ entry.1.keyword? = some key ∧
    entry.2 = quotation.sugar ∧ other.2 = quotation.call)

abbrev EntriesRespelled : List (Form × Form) → List (Form × Form) → Prop :=
  List.Forall₂ (EntryRespelled quotation key)

/-- The same part of a definition, or one in which quotes under the key are written
as calls: in the metadata of a name, in a map of attributes, or in the metadata of
the name that a signature begins with. -/
inductive Respelled : Form → Form → Prop where
  | same (form : Form) : Respelled form form
  | name {symbol : String} {span : Span} {entries others : List (Form × Form)}
    (alike : EntriesRespelled quotation key entries others) :
    Respelled (.atom (.symbol symbol) span entries) (.atom (.symbol symbol) span others)
  | attributes {span : Span} {metadata entries others : List (Form × Form)}
    (alike : EntriesRespelled quotation key entries others) :
    Respelled (.map entries span metadata) (.map others span metadata)
  | signature {symbol : String} {nameSpan span : Span} {entries others : List (Form × Form)}
    {rest : List Form} {metadata : List (Form × Form)}
    (alike : EntriesRespelled quotation key entries others) :
    Respelled (.group .list (.atom (.symbol symbol) nameSpan entries :: rest) span metadata)
      (.group .list (.atom (.symbol symbol) nameSpan others :: rest) span metadata)

/-- The same metadata but for the value under the key, which comes from either
spelling. -/
structure AlikeMetadata (left right : Metadata) : Prop where
  elsewhere : ∀ other, other ≠ key → left.get? other = right.get? other
  there : SameOrEach (Definition.entryValue key quotation.sugar)
    (Definition.entryValue key quotation.call) (left.get? key) (right.get? key)

structure AlikeDefinition (left right : Definition) : Prop where
  name : left.1 = right.1
  metadata : AlikeMetadata quotation key left.2 right.2

end Respelling

variable {quotation : Quotation} {key : String}

theorem AlikeMetadata.refl (metadata : Metadata) : AlikeMetadata quotation key metadata metadata :=
  ⟨fun _ _ => rfl, .inl rfl⟩

theorem AlikeDefinition.refl (definition : Definition) : AlikeDefinition quotation key definition definition :=
  ⟨rfl, .refl _⟩

section Entries

variable {entries others : List (Form × Form)}

theorem lastValue?_elsewhere (alike : EntriesRespelled quotation key entries others) {name : String}
    (different : name ≠ key) : Form.lastValue? entries name = Form.lastValue? others name := by
  induction alike with
  | nil => rfl
  | @cons entry other entries others first _ ih =>
    rw [Form.lastValue?_cons, Form.lastValue?_cons, ih]
    rcases first with rfl | ⟨sameKey, keyed, -, -⟩
    · rfl
    · simp [← sameKey, keyed, Ne.symm different]

theorem lastValue?_there (alike : EntriesRespelled quotation key entries others) :
    SameOrEach quotation.sugar quotation.call (Form.lastValue? entries key)
      (Form.lastValue? others key) := by
  induction alike with
  | nil => exact .inl rfl
  | @cons entry other entries others first _ ih =>
    rw [Form.lastValue?_cons, Form.lastValue?_cons]
    apply ih.or
    rcases first with rfl | ⟨sameKey, keyed, sugar, call⟩
    · exact .inl rfl
    · exact .inr (by simp [← sameKey, keyed, sugar, call])

end Entries

namespace AlikeMetadata

variable {left right : Metadata}

theorem insertAll (alike : AlikeMetadata quotation key left right) (entries : List (String × Value)) :
    AlikeMetadata quotation key (left.insertAll entries) (right.insertAll entries) where
  elsewhere other different := by
    rw [Dict.get?_insertAll, Dict.get?_insertAll, alike.elsewhere other different]
  there := by
    rw [Dict.get?_insertAll, Dict.get?_insertAll]
    exact SameOrEach.or (.inl rfl) alike.there

theorem insert (alike : AlikeMetadata quotation key left right) (name : String) (value : Value) :
    AlikeMetadata quotation key (left.insert name value) (right.insert name value) :=
  alike.insertAll [(name, value)]

theorem mergeEntries (alike : AlikeMetadata quotation key left right)
    {entries others : List (Form × Form)} (respelled : EntriesRespelled quotation key entries others) :
    AlikeMetadata quotation key (Definition.mergeEntries left entries)
      (Definition.mergeEntries right others) where
  elsewhere other different := by
    rw [Definition.get?_mergeEntries, Definition.get?_mergeEntries, alike.elsewhere other different,
      Definition.writtenValue?, Definition.writtenValue?, lastValue?_elsewhere respelled different]
  there := by
    rw [Definition.get?_mergeEntries, Definition.get?_mergeEntries]
    exact ((lastValue?_there respelled).map (Definition.entryValue key)).or alike.there

theorem contains_eq (alike : AlikeMetadata quotation key left right) (name : String) :
    left.contains name = right.contains name := by
  by_cases same : name = key
  · rw [same]
    exact alike.there.isSome
  · rw [Dict.contains, Dict.contains, alike.elsewhere name same]

end AlikeMetadata

namespace Respelled

variable {form other : Form}

theorem string? (respelled : Respelled quotation key form other) : form.string? = other.string? := by
  cases respelled <;> rfl

theorem keyword? (respelled : Respelled quotation key form other) : form.keyword? = other.keyword? := by
  cases respelled <;> rfl

theorem symbol? (respelled : Respelled quotation key form other) : form.symbol? = other.symbol? := by
  cases respelled <;> rfl

theorem isVector (respelled : Respelled quotation key form other) : form.isVector = other.isVector := by
  cases respelled <;> rfl

theorem eq_of_isVector (respelled : Respelled quotation key form other)
    (vector : form.isVector = true) : form = other := by
  cases respelled with
  | same => rfl
  | name | attributes | signature => cases vector

theorem map? (respelled : Respelled quotation key form other) :
    Option.Rel (EntriesRespelled quotation key) form.map? other.map? := by
  cases respelled with
  | same => exact optionRel_self (fun _ => List.forall₂_same.2 fun _ _ => .inl rfl) _
  | attributes alike => exact .some alike
  | name | signature => exact .none

theorem named? (respelled : Respelled quotation key form other) :
    Option.Rel (AlikeDefinition quotation key) (Definition.named? form) (Definition.named? other) := by
  cases respelled with
  | same => exact optionRel_self .refl _
  | name alike => exact .some ⟨rfl, (AlikeMetadata.refl ∅).mergeEntries alike⟩
  | attributes | signature => exact .none

theorem parameters? (respelled : Respelled quotation key form other) :
    Definition.parameters? form = Definition.parameters? other := by
  cases respelled <;> rfl

end Respelled

section Parts

variable {forms others : List Form} (respelled : List.Forall₂ (Respelled quotation key) forms others)
include respelled

theorem respelled_tail : List.Forall₂ (Respelled quotation key) forms.tail others.tail := by
  cases respelled with
  | nil => exact .nil
  | cons _ rest => exact rest

theorem firstNamed?_respelled :
    (Definition.firstNamed? forms = none ∧ Definition.firstNamed? others = none) ∨
      ∃ name left right, Definition.firstNamed? forms = some (name, left) ∧
        Definition.firstNamed? others = some (name, right) ∧ AlikeMetadata quotation key left right := by
  cases respelled with
  | nil => exact .inl ⟨rfl, rfl⟩
  | cons first _ =>
    rcases optionRel_cases first.named? with nothing |
      ⟨⟨name, left⟩, ⟨name', right⟩, named, named', ⟨same, metadata⟩⟩
    · exact .inl nothing
    · cases same
      exact .inr ⟨name, left, right, named, named', metadata⟩

theorem string?_respelled : forms.head?.bind Form.string? = others.head?.bind Form.string? := by
  cases respelled with
  | nil => rfl
  | cons first _ => exact first.string?

theorem takeDoc_respelled {left right : Metadata} (alike : AlikeMetadata quotation key left right) :
    AlikeMetadata quotation key (Definition.takeDoc left forms).1 (Definition.takeDoc right others).1 ∧
      List.Forall₂ (Respelled quotation key) (Definition.takeDoc left forms).2
        (Definition.takeDoc right others).2 := by
  unfold Definition.takeDoc
  rw [string?_respelled respelled]
  cases others.head?.bind Form.string? with
  | none => exact ⟨alike, respelled⟩
  | some doc => exact ⟨alike.insert "doc" (.text doc), respelled_tail respelled⟩

theorem takeAttributes_respelled {left right : Metadata} (alike : AlikeMetadata quotation key left right) :
    AlikeMetadata quotation key (Definition.takeAttributes left forms).1
        (Definition.takeAttributes right others).1 ∧
      List.Forall₂ (Respelled quotation key) (Definition.takeAttributes left forms).2
        (Definition.takeAttributes right others).2 := by
  have attributes : Option.Rel (EntriesRespelled quotation key) (forms.head?.bind Form.map?)
      (others.head?.bind Form.map?) := by
    cases respelled with
    | nil => exact .none
    | cons first _ => exact first.map?
  unfold Definition.takeAttributes
  rcases optionRel_cases attributes with ⟨nothing, nothing'⟩ | ⟨entries, entries', taken, taken', merged⟩
  · rw [nothing, nothing']
    exact ⟨alike, respelled⟩
  · rw [taken, taken']
    exact ⟨alike.mergeEntries merged, respelled_tail respelled⟩

theorem getLast?_respelled : Option.Rel (Respelled quotation key) forms.getLast? others.getLast? := by
  induction respelled with
  | nil => exact .none
  | cons first rest ih =>
    cases rest with
    | nil => exact .some first
    | cons =>
      rw [List.getLast?_cons_cons, List.getLast?_cons_cons]
      exact ih

theorem filterMap_parameters?_respelled :
    forms.filterMap Definition.parameters? = others.filterMap Definition.parameters? := by
  induction respelled with
  | nil => rfl
  | cons first _ ih => rw [List.filterMap_cons, List.filterMap_cons, first.parameters?, ih]

theorem signatures_respelled :
    (Definition.signatures forms).1 = (Definition.signatures others).1 ∧
      EntriesRespelled quotation key (Definition.signatures forms).2 (Definition.signatures others).2 := by
  have nothing : EntriesRespelled quotation key [] [] := .nil
  -- Vectors are never respelled, so both begin with a parameter vector or neither does.
  cases vector : forms.head?.any Form.isVector with
  | true =>
    cases respelled with
    | nil => cases vector
    | cons first _ =>
      obtain rfl := first.eq_of_isVector vector
      simp only [List.head?_cons, Option.any_some] at vector
      simp only [Definition.signatures, vector, if_true]
      exact ⟨trivial, nothing⟩
  | false =>
    have other : others.head?.any Form.isVector = false := by
      rw [← vector]
      cases respelled with
      | nil => rfl
      | cons first _ => exact first.isVector.symm
    rw [Definition.signatures_of_other vector, Definition.signatures_of_other other]
    refine ⟨filterMap_parameters?_respelled respelled, ?_⟩
    rcases optionRel_cases (getLast?_respelled respelled) with ⟨last, last'⟩ |
      ⟨form, other, last, last', alike⟩
    · rw [last, last']
      exact nothing
    · rw [last, last', Option.bind_some, Option.bind_some]
      rcases optionRel_cases alike.map? with ⟨map, map'⟩ | ⟨entries, entries', map, map', respelled⟩
      · rw [map, map']
        exact nothing
      · rw [map, map']
        exact respelled

end Parts

theorem dropOptions_respelled : ∀ {forms others : List Form},
    List.Forall₂ (Respelled quotation key) forms others →
    List.Forall₂ (Respelled quotation key) (Definition.dropOptions forms) (Definition.dropOptions others)
  | [], _, .nil => .nil
  | [_], _, .cons only .nil => .cons only .nil
  | first :: second :: rest, _, .cons key (.cons value others) => by
    rw [Definition.dropOptions, Definition.dropOptions, key.keyword?]
    split
    · exact dropOptions_respelled others
    · exact .cons key (.cons value others)

namespace AlikeMetadata

variable {left right : Metadata} (alike : AlikeMetadata quotation key left right)
include alike

theorem identify (site : Site) (name : String) (span : Span) :
    AlikeMetadata quotation key (site.identify name span left) (site.identify name span right) :=
  alike.insertAll _

theorem completed {parameters parameters' : List Form} (same : parameters = parameters') :
    AlikeMetadata quotation key
      (if left.contains "arglists" then left else left.insert "arglists" (Definition.codeSeq parameters))
      (if right.contains "arglists" then right
        else right.insert "arglists" (Definition.codeSeq parameters')) := by
  rw [alike.contains_eq, same]
  split
  · exact alike
  · exact alike.insert _ _

end AlikeMetadata

namespace Definition

section Definers

variable {forms others : List Form} (respelled : List.Forall₂ (Respelled quotation key) forms others)
  (site : Site) (span : Span)
include respelled

theorem ofVar_respelled :
    List.Forall₂ (AlikeDefinition quotation key) (ofVar site span forms) (ofVar site span others) := by
  rcases firstNamed?_respelled respelled with ⟨nothing, nothing'⟩ |
    ⟨name, left, right, named, named', metadata⟩
  · simp only [ofVar, nothing, nothing', List.Forall₂.nil]
  · simp only [ofVar, named, named', respelled.length_eq]
    refine .cons ⟨rfl, AlikeMetadata.identify ?_ site name span⟩ .nil
    split
    · exact (takeDoc_respelled (respelled_tail respelled) metadata).1
    · exact metadata

theorem ofFunction_respelled (kind : FunctionKind) :
    List.Forall₂ (AlikeDefinition quotation key) (ofFunction site span kind forms)
      (ofFunction site span kind others) := by
  rcases firstNamed?_respelled respelled with ⟨nothing, nothing'⟩ |
    ⟨name, left, right, named, named', metadata⟩
  · simp only [ofFunction, nothing, nothing', List.Forall₂.nil]
  · simp only [ofFunction, named, named']
    have documented := takeDoc_respelled (respelled_tail respelled) metadata
    have attributed := takeAttributes_respelled documented.2 documented.1
    have parts := signatures_respelled attributed.2
    have merged := attributed.1.mergeEntries parts.2
    have complete := (merged.completed parts.1).insertAll kind.flag
    exact .cons ⟨rfl, complete.identify site name span⟩ .nil

theorem ofMultimethod_respelled :
    List.Forall₂ (AlikeDefinition quotation key) (ofMultimethod site span forms)
      (ofMultimethod site span others) := by
  rcases firstNamed?_respelled respelled with ⟨nothing, nothing'⟩ |
    ⟨name, left, right, named, named', metadata⟩
  · simp only [ofMultimethod, nothing, nothing', List.Forall₂.nil]
  · simp only [ofMultimethod, named, named']
    have documented := takeDoc_respelled (respelled_tail respelled) metadata
    have attributed := takeAttributes_respelled documented.2 documented.1
    exact .cons ⟨rfl, attributed.1.identify site name span⟩ .nil

theorem ofDeclare_respelled :
    List.Forall₂ (AlikeDefinition quotation key) (ofDeclare site span forms)
      (ofDeclare site span others) := by
  have named : List.Forall₂ (AlikeDefinition quotation key) (forms.filterMap named?)
      (others.filterMap named?) := List.rel_filterMap (fun _ _ alike => alike.named?) respelled
  unfold ofDeclare
  rw [List.forall₂_map_left_iff, List.forall₂_map_right_iff]
  refine named.imp ?_
  rintro ⟨name, left⟩ ⟨name', right⟩ ⟨same, metadata⟩
  cases same
  exact ⟨rfl, (metadata.insert "declared" (.bool true)).identify site name span⟩

end Definers

theorem ofSignature_respelled {form other : Form} (respelled : Respelled quotation key form other)
    (site : Site) (protocol : String) :
    Option.Rel (AlikeDefinition quotation key) (ofSignature site protocol form)
      (ofSignature site protocol other) := by
  cases respelled with
  | same => exact optionRel_self .refl _
  | name | attributes => exact .none
  | @signature symbol nameSpan span entries others rest metadata alike =>
    have written : AlikeMetadata quotation key (mergeEntries ∅ entries) (mergeEntries ∅ others) :=
      (AlikeMetadata.refl ∅).mergeEntries alike
    have listed := written.insert "arglists" (codeSeq (rest.filter Form.isVector))
    simp only [ofSignature, Form.list?, Option.bind_some, firstNamed?, List.head?_cons, named?,
      Form.symbol?, Option.map_some, List.tail_cons]
    refine .some ⟨rfl, AlikeMetadata.identify (AlikeMetadata.insert ?_ _ _) site symbol span⟩
    cases rest.reverse.findSome? Form.string? with
    | none => exact listed
    | some doc => exact listed.insert "doc" (.text doc)

theorem ofType_of_other {fields : Form} (other : fields.isVector = false) {site : Site} {span : Span}
    {isRecord : Bool} {name : Form} {rest : List Form} :
    ofType site span isRecord (name :: fields :: rest) = [] := by
  simp only [ofType, other]
  cases name.symbol? <;> rfl

section Types

variable {forms others : List Form} (respelled : List.Forall₂ (Respelled quotation key) forms others)
  (site : Site) (span : Span)
include respelled

theorem ofProtocol_respelled :
    List.Forall₂ (AlikeDefinition quotation key) (ofProtocol site span forms)
      (ofProtocol site span others) := by
  rcases firstNamed?_respelled respelled with ⟨nothing, nothing'⟩ |
    ⟨name, left, right, named, named', metadata⟩
  · simp only [ofProtocol, nothing, nothing', List.Forall₂.nil]
  · simp only [ofProtocol, named, named']
    have documented := takeDoc_respelled (respelled_tail respelled) metadata
    have each : ∀ ⦃form other⦄, Respelled quotation key form other →
        Option.Rel (AlikeDefinition quotation key) (ofSignature site name form)
          (ofSignature site name other) := fun _ _ alike => ofSignature_respelled alike site name
    exact .cons ⟨rfl, documented.1.identify site name span⟩
      (List.rel_filterMap each (dropOptions_respelled documented.2))

theorem ofType_respelled (isRecord : Bool) :
    List.Forall₂ (AlikeDefinition quotation key) (ofType site span isRecord forms)
      (ofType site span isRecord others) := by
  have same : ofType site span isRecord forms = ofType site span isRecord others := by
    cases respelled with
    | nil => rfl
    | cons first rest =>
      cases rest with
      | nil => rfl
      | @cons fields fields' _ _ second _ =>
        cases vector : fields.isVector with
        | true =>
          obtain rfl := second.eq_of_isVector vector
          simp only [ofType, first.symbol?]
        | false => rw [ofType_of_other vector, ofType_of_other (second.isVector ▸ vector)]
  rw [same]
  exact List.forall₂_same.2 fun definition _ => .refl definition

end Types

theorem ofForm_respelled {arguments others : List Form}
    (respelled : List.Forall₂ (Respelled quotation key) arguments others) (site : Site) (head : Form)
    (span : Span) (metadata : List (Form × Form)) :
    List.Forall₂ (AlikeDefinition quotation key)
      (ofForm site (.group .list (head :: arguments) span metadata))
      (ofForm site (.group .list (head :: others) span metadata)) := by
  unfold ofForm
  cases called : head.symbol? with
  | none =>
    have nameless (forms : List Form) : (Form.group .list (head :: forms) span metadata).head? = none := called
    simp only [Form.list?, nameless, List.Forall₂.nil]
  | some word =>
    have named (forms : List Form) : (Form.group .list (head :: forms) span metadata).head? = some word := called
    simp only [Form.list?, named, List.tail_cons]
    split
    · exact ofVar_respelled respelled site span
    · exact ofFunction_respelled respelled site span .openFunction
    · exact ofFunction_respelled respelled site span .privateFunction
    · exact ofFunction_respelled respelled site span .macroFunction
    · exact ofMultimethod_respelled respelled site span
    · exact ofVar_respelled (List.forall₂_take 2 respelled) site span
    · exact ofDeclare_respelled respelled site span
    · exact ofProtocol_respelled respelled site span
    · exact ofType_respelled respelled site span true
    · exact ofType_respelled respelled site span false
    · exact .nil

end Definition

end VarDoc
