import VarDoc.Namespace.Definition
import VarDoc.Proofs.Storable
import VarDoc.Proofs.UnplacedReading

/-! Definitions do not look at places either, except for the line and the
column that they record. -/

set_option autoImplicit false

namespace VarDoc

namespace Value

mutual

def unplaced : Value → Value
  | .seq items => .seq (unplacedItems items)
  | .map entries => .map (unplacedEntries entries)
  | .code form => .code form.unplaced
  | .function form => .function form.unplaced
  | value => value

def unplacedItems : List Value → List Value
  | [] => []
  | item :: rest => item.unplaced :: unplacedItems rest

def unplacedEntries : List (String × Value) → List (String × Value)
  | [] => []
  | (key, value) :: rest => (key, value.unplaced) :: unplacedEntries rest

end

theorem unplacedItems_eq (items : List Value) : unplacedItems items = items.map unplaced := by
  induction items with
  | nil => rfl
  | cons item rest ih => rw [unplacedItems, ih, List.map_cons]

theorem unplacedEntries_eq (entries : List (String × Value)) :
    unplacedEntries entries = entries.map fun entry => (entry.1, entry.2.unplaced) := by
  induction entries with
  | nil => rfl
  | cons entry rest ih => rw [unplacedEntries, ih, List.map_cons]

theorem unplaced_of_ofNumber? {written : String} {value : Value}
    (made : ofNumber? written = some value) : value.unplaced = value := by
  rcases ofNumber?_cases made with ⟨number, rfl⟩ | ⟨number, -, rfl⟩ <;> rfl

theorem keyText?_unplaced (form : Form) : keyText? form.unplaced = keyText? form := by
  cases form with
  | atom leaf => cases leaf <;> rfl
  | group | map | marked => rfl

theorem sortEntries_unplaced (entries : List (String × Value)) :
    sortEntries (unplacedEntries entries) = unplacedEntries (sortEntries entries) := by
  have mapped := Dict.map_insertAll unplaced ∅ entries
  rw [unplacedEntries_eq, unplacedEntries_eq, ← Dict.entries_ofList, ← Dict.entries_ofList]
  exact congrArg Dict.entries mapped.symm

mutual

theorem ofForm_unplaced : ∀ form : Form, ofForm form.unplaced = (ofForm form).unplaced
  | .atom leaf span metadata => by
    cases leaf with
    | number written =>
      simp only [Form.unplaced, ofForm]
      cases made : ofNumber? written with
      | none => rfl
      | some value => exact (unplaced_of_ofNumber? made).symm
    | _ => rfl
  | .group shape items span metadata => by
    cases shape with
    | vector => simp only [Form.unplaced, ofForm, unplaced, ofForms_unplaced items]
    | list | set | function => rfl
  | .map entries span metadata => by
    simp only [Form.unplaced, ofForm, ofEntries?_unplaced entries]
    cases ofEntries? entries with
    | none => rfl
    | some fields => exact congrArg Value.map (sortEntries_unplaced fields)
  | .marked mark inner span metadata => by
    cases mark with
    | tag => rfl
    | sigil sigil =>
      cases sigil with
      | quote =>
        have denoted := ofForm_unplaced inner
        cases inner with
        | atom | marked => simpa only [Form.unplaced, ofForm] using denoted
        | group | map => rfl
      | _ => rfl

theorem ofForms_unplaced : ∀ forms : List Form,
    ofForms (Form.unplacedAll forms) = unplacedItems (ofForms forms)
  | [] => rfl
  | form :: rest => by
    simp only [Form.unplacedAll, ofForms, unplacedItems, ofForm_unplaced form, ofForms_unplaced rest]

theorem ofEntries?_unplaced : ∀ entries : List (Form × Form),
    ofEntries? (Form.unplacedPairs entries) = (ofEntries? entries).map unplacedEntries
  | [] => rfl
  | (key, value) :: rest => by
    simp only [Form.unplacedPairs, ofEntries?, keyText?_unplaced, ofEntries?_unplaced rest,
      ofForm_unplaced value]
    cases keyText? key <;> cases ofEntries? rest <;> rfl

end

end Value

def Metadata.unplaced (metadata : Metadata) : Metadata := metadata.map Value.unplaced

theorem Metadata.unplaced_insert (metadata : Metadata) (key : String) (value : Value) :
    Metadata.unplaced (Dict.insert metadata key value) =
      Dict.insert metadata.unplaced key value.unplaced :=
  Dict.map_insert Value.unplaced metadata key value

theorem Metadata.unplaced_insertAll (metadata : Metadata) (entries : List (String × Value)) :
    Metadata.unplaced (Dict.insertAll metadata entries) =
      Dict.insertAll metadata.unplaced (entries.map fun entry => (entry.1, entry.2.unplaced)) :=
  Dict.map_insertAll Value.unplaced metadata entries

def placeKeys : List String := ["line", "column"]

def Metadata.unlocated (metadata : Metadata) : Metadata := metadata.without placeKeys

def Site.unplaced (site : Site) : Site := ⟨site.space, site.file, [], ⟨#[]⟩⟩

namespace Definition

def unplaced (definition : Definition) : Definition := (definition.1, Metadata.unplaced definition.2)

def unlocated (definition : Definition) : Definition := (definition.1, Metadata.unlocated definition.2)

theorem codeSeq_unplaced (forms : List Form) :
    codeSeq (forms.map Form.unplaced) = (codeSeq forms).unplaced := by
  rw [codeSeq, codeSeq, Value.unplaced, Value.unplacedItems_eq, List.map_map, List.map_map]
  rfl

theorem arglistsValue_unplaced (form : Form) :
    arglistsValue form.unplaced = (arglistsValue form).unplaced := by
  have listed (items : List Form) :
      Value.seq ((Form.unplacedAll items).map .code) = (codeSeq items).unplaced := by
    rw [Form.unplacedAll_eq]
    exact codeSeq_unplaced items
  cases form with
  | atom | map => exact Value.ofForm_unplaced _
  | group shape items =>
    cases shape with
    | list | vector => exact listed items
    | set | function => rfl
  | marked mark inner =>
    cases mark with
    | tag => rfl
    | sigil sigil =>
      cases sigil with
      | quote =>
        cases inner with
        | atom | map | marked => exact Value.ofForm_unplaced _
        | group shape items =>
          cases shape with
          | list | vector => exact listed items
          | set | function => rfl
      | _ => rfl

theorem entryValue_unplaced (key : String) (form : Form) :
    entryValue key form.unplaced = (entryValue key form).unplaced := by
  unfold entryValue
  split
  · rfl
  · split
    · exact arglistsValue_unplaced form
    · exact Value.ofForm_unplaced form

theorem mergeEntries_unplaced (metadata : Metadata) (entries : List (Form × Form)) :
    mergeEntries metadata.unplaced (entries.map (Prod.map Form.unplaced Form.unplaced)) =
      (mergeEntries metadata entries).unplaced := by
  unfold mergeEntries
  rw [Metadata.unplaced_insertAll, List.filterMap_map, List.map_filterMap]
  refine congrArg (Dict.insertAll _) (congrArg (List.filterMap · entries) (funext fun entry => ?_))
  simp only [Function.comp_apply, Prod.map, Form.keyword?_unplaced, Option.map_map]
  cases entry.1.keyword? with
  | none => rfl
  | some name => exact congrArg (fun value => some (name, value)) (entryValue_unplaced name entry.2)

theorem named?_unplaced (form : Form) : named? form.unplaced = (named? form).map unplaced := by
  unfold named?
  rw [Form.symbol?_unplaced, Form.metadata_unplaced]
  cases form.symbol? with
  | none => rfl
  | some name => exact congrArg (fun metadata => some (name, metadata)) (mergeEntries_unplaced ∅ _)

theorem firstNamed?_unplaced (forms : List Form) :
    firstNamed? (forms.map Form.unplaced) = (firstNamed? forms).map unplaced := by
  unfold firstNamed?
  cases forms with
  | nil => rfl
  | cons form rest => exact named?_unplaced form

theorem takeDoc_unplaced (metadata : Metadata) (forms : List Form) :
    takeDoc metadata.unplaced (forms.map Form.unplaced) =
      ((takeDoc metadata forms).1.unplaced, (takeDoc metadata forms).2.map Form.unplaced) := by
  unfold takeDoc
  cases forms with
  | nil => rfl
  | cons form rest =>
    simp only [List.map_cons, List.head?_cons, Option.bind_some, Form.string?_unplaced]
    cases form.string? with
    | none => rfl
    | some doc => exact Prod.ext (metadata.unplaced_insert "doc" (.text doc)).symm rfl

theorem takeAttributes_unplaced (metadata : Metadata) (forms : List Form) :
    takeAttributes metadata.unplaced (forms.map Form.unplaced) =
      ((takeAttributes metadata forms).1.unplaced,
        (takeAttributes metadata forms).2.map Form.unplaced) := by
  unfold takeAttributes
  cases forms with
  | nil => rfl
  | cons form rest =>
    simp only [List.map_cons, List.head?_cons, Option.bind_some, Form.map?_unplaced]
    cases form.map? with
    | none => rfl
    | some entries => exact Prod.ext (mergeEntries_unplaced metadata entries) rfl

theorem identify_unplaced (site : Site) (name : String) (span : Span) (metadata : Metadata) :
    (site.unplaced.identify name .nowhere metadata.unplaced).unlocated =
      (site.identify name span metadata).unplaced.unlocated := by
  let common : List (String × Value) :=
    [("name", .symbol name), ("ns", .namespaceRef site.space), ("file", .text site.file)]
  have recorded (line column : Value) :
      Metadata.unlocated (metadata.unplaced.insertAll (common ++ [("line", line), ("column", column)])) =
        Metadata.unlocated (metadata.unplaced.insertAll common) := by
    rw [Dict.insertAll_append]
    exact Dict.without_insertAll_of_mem _ (by simp [placeKeys])
  have mapped := metadata.unplaced_insertAll
    (common ++ [("line", .int (Int64.ofNat (site.lines.locate site.text span.start).line)),
      ("column", .int (Int64.ofNat (site.lines.locate site.text span.start).column))])
  exact (recorded _ _).trans ((congrArg Metadata.unlocated mapped).trans (recorded _ _)).symm

theorem identified_unplaced (site : Site) (name : String) (span : Span) {metadata other : Metadata}
    (same : other = metadata.unplaced) :
    unlocated (name, site.unplaced.identify name .nowhere other) =
      unlocated (unplaced (name, site.identify name span metadata)) := by
  subst same
  exact Prod.ext rfl (identify_unplaced site name span metadata)

theorem ofVar_unplaced (site : Site) (span : Span) (arguments : List Form) :
    (ofVar site.unplaced .nowhere (arguments.map Form.unplaced)).map unlocated =
      (ofVar site span arguments).map (unlocated ∘ unplaced) := by
  unfold ofVar
  rw [firstNamed?_unplaced]
  cases firstNamed? arguments with
  | none => rfl
  | some named =>
    refine congrArg (fun definition => [definition]) (identified_unplaced site named.1 span ?_)
    rw [List.length_map, ← List.map_tail]
    split
    · exact congrArg Prod.fst (takeDoc_unplaced named.2 arguments.tail)
    · rfl

theorem signatures_unplaced (forms : List Form) :
    signatures (forms.map Form.unplaced) =
      ((signatures forms).1.map Form.unplaced,
        (signatures forms).2.map (Prod.map Form.unplaced Form.unplaced)) := by
  have arities : ((forms.map Form.unplaced).filterMap fun arity =>
        (arity.list?.bind List.head?).filter Form.isVector) =
      (forms.filterMap fun arity => (arity.list?.bind List.head?).filter Form.isVector).map
        Form.unplaced := by
    rw [List.filterMap_map, List.map_filterMap]
    refine congrArg (List.filterMap · forms) (funext fun arity => ?_)
    rw [Function.comp_apply, Form.list?_unplaced]
    rcases arity.list? with _ | _ | ⟨first, rest⟩
    · rfl
    · rfl
    · cases vector : first.isVector <;> simp [Option.filter, vector]
  have trailing : ((forms.map Form.unplaced).getLast?.bind Form.map?).getD [] =
      ((forms.getLast?.bind Form.map?).getD []).map (Prod.map Form.unplaced Form.unplaced) := by
    rw [List.getLast?_map]
    cases forms.getLast? with
    | none => rfl
    | some last =>
      rw [Option.map_some, Option.bind_some, Option.bind_some, Form.map?_unplaced]
      cases last.map? <;> rfl
  cases forms with
  | nil => rfl
  | cons first rest =>
    simp only [List.map_cons] at arities trailing ⊢
    simp only [signatures, Form.isVector_unplaced, arities, trailing]
    split <;> rfl

theorem flag_unplaced (kind : FunctionKind) :
    (kind.flag.map fun entry => (entry.1, entry.2.unplaced)) = kind.flag := by
  cases kind <;> rfl

theorem completed_unplaced (merged : Metadata) (parameters : List Form) (kind : FunctionKind) :
    Dict.insertAll
        (if Dict.contains merged.unplaced "arglists" then merged.unplaced
          else Dict.insert merged.unplaced "arglists" (codeSeq (parameters.map Form.unplaced)))
        kind.flag =
      Metadata.unplaced (Dict.insertAll
        (if Dict.contains merged "arglists" then merged
          else Dict.insert merged "arglists" (codeSeq parameters)) kind.flag) := by
  have listed : Dict.contains merged.unplaced "arglists" = Dict.contains merged "arglists" := by
    rw [Dict.contains, Dict.contains, Metadata.unplaced, Dict.get?_map, Option.isSome_map]
  rw [listed, codeSeq_unplaced, Metadata.unplaced_insertAll, flag_unplaced]
  split
  · rfl
  · rw [Metadata.unplaced_insert]

theorem ofFunction_unplaced (site : Site) (span : Span) (kind : FunctionKind)
    (arguments : List Form) :
    (ofFunction site.unplaced .nowhere kind (arguments.map Form.unplaced)).map unlocated =
      (ofFunction site span kind arguments).map (unlocated ∘ unplaced) := by
  unfold ofFunction
  rw [firstNamed?_unplaced]
  cases firstNamed? arguments with
  | none => rfl
  | some named =>
    obtain ⟨name, written⟩ := named
    simp only [Option.map_some, unplaced]
    rw [← List.map_tail, takeDoc_unplaced]
    simp only [takeAttributes_unplaced, signatures_unplaced, mergeEntries_unplaced]
    refine congrArg (fun definition => [definition]) (identified_unplaced site name span ?_)
    exact completed_unplaced _ _ kind

theorem ofMultimethod_unplaced (site : Site) (span : Span) (arguments : List Form) :
    (ofMultimethod site.unplaced .nowhere (arguments.map Form.unplaced)).map unlocated =
      (ofMultimethod site span arguments).map (unlocated ∘ unplaced) := by
  unfold ofMultimethod
  rw [firstNamed?_unplaced]
  cases firstNamed? arguments with
  | none => rfl
  | some named =>
    obtain ⟨name, written⟩ := named
    simp only [Option.map_some, unplaced]
    rw [← List.map_tail, takeDoc_unplaced]
    refine congrArg (fun definition => [definition]) (identified_unplaced site name span ?_)
    exact congrArg Prod.fst (takeAttributes_unplaced _ _)

theorem ofDeclare_unplaced (site : Site) (span : Span) (arguments : List Form) :
    (ofDeclare site.unplaced .nowhere (arguments.map Form.unplaced)).map unlocated =
      (ofDeclare site span arguments).map (unlocated ∘ unplaced) := by
  unfold ofDeclare
  rw [List.filterMap_map]
  have named : named? ∘ Form.unplaced = fun form => (named? form).map unplaced :=
    funext named?_unplaced
  rw [named, ← List.map_filterMap, List.map_map, List.map_map, List.map_map]
  refine List.map_congr_left fun entry _ => identified_unplaced site entry.1 span ?_
  exact (Metadata.unplaced_insert entry.2 "declared" (.bool true)).symm

theorem dropOptions_unplaced (forms : List Form) :
    dropOptions (forms.map Form.unplaced) = (dropOptions forms).map Form.unplaced := by
  fun_induction dropOptions forms with
  | case1 key value rest isKeyword ih =>
    rw [List.map_cons, List.map_cons, dropOptions, Form.keyword?_unplaced, if_pos isKeyword, ih]
  | case2 key value rest notKeyword =>
    rw [List.map_cons, List.map_cons, dropOptions, Form.keyword?_unplaced, if_neg notKeyword]
  | case3 forms short =>
    rcases forms with _ | ⟨key, _ | ⟨value, rest⟩⟩
    · rfl
    · rfl
    · exact absurd rfl (short key value rest)

theorem ofSignature_unplaced (site : Site) (protocol : String) (signature : Form) :
    (ofSignature site.unplaced protocol signature.unplaced).map unlocated =
      (ofSignature site protocol signature).map (unlocated ∘ unplaced) := by
  unfold ofSignature
  rw [Form.list?_unplaced, Form.span_unplaced]
  cases signature.list? with
  | none => rfl
  | some items =>
    rw [Option.map_some, Option.bind_some, Option.bind_some, firstNamed?_unplaced]
    cases firstNamed? items with
    | none => rfl
    | some named =>
      refine congrArg some (identified_unplaced site named.1 signature.span ?_)
      have vectors : ((items.map Form.unplaced).tail.filter Form.isVector) =
          (items.tail.filter Form.isVector).map Form.unplaced := by
        rw [← List.map_tail, List.filter_map]
        exact congrArg (List.map Form.unplaced)
          (congrArg (List.filter · items.tail) (funext Form.isVector_unplaced))
      have docs : (items.map Form.unplaced).tail.reverse.findSome? Form.string? =
          items.tail.reverse.findSome? Form.string? := by
        rw [← List.map_tail, ← List.map_reverse, List.findSome?_map]
        exact congrArg (List.findSome? · _) (funext Form.string?_unplaced)
      rw [Metadata.unplaced_insert]
      simp only [vectors, docs, codeSeq_unplaced]
      cases items.tail.reverse.findSome? Form.string? with
      | none =>
        simp only [Metadata.unplaced_insert]
        rfl
      | some doc =>
        simp only [Metadata.unplaced_insert]
        rfl

theorem ofProtocol_unplaced (site : Site) (span : Span) (arguments : List Form) :
    (ofProtocol site.unplaced .nowhere (arguments.map Form.unplaced)).map unlocated =
      (ofProtocol site span arguments).map (unlocated ∘ unplaced) := by
  unfold ofProtocol
  rw [firstNamed?_unplaced]
  cases firstNamed? arguments with
  | none => rfl
  | some named =>
    obtain ⟨name, written⟩ := named
    simp only [Option.map_some, unplaced]
    rw [← List.map_tail, takeDoc_unplaced]
    simp only [dropOptions_unplaced, List.map_cons, List.filterMap_map]
    rw [identified_unplaced site name span rfl]
    refine congrArg (List.cons _) ?_
    rw [List.map_filterMap, List.map_filterMap]
    exact congrArg (List.filterMap · _) (funext (ofSignature_unplaced site name))

theorem factory_unplaced (site : Site) (span : Span) (name doc : String) (parameters : Form) :
    unlocated (factory site.unplaced .nowhere name doc parameters.unplaced) =
      unlocated (unplaced (factory site span name doc parameters)) := by
  refine identified_unplaced site name span ?_
  exact (Metadata.unplaced_insertAll ∅ [("arglists", codeSeq [parameters]), ("doc", .text doc)]).symm

theorem ofType_unplaced (site : Site) (span : Span) (isRecord : Bool) (arguments : List Form) :
    (ofType site.unplaced .nowhere isRecord (arguments.map Form.unplaced)).map unlocated =
      (ofType site span isRecord arguments).map (unlocated ∘ unplaced) := by
  rcases arguments with _ | ⟨nameForm, _ | ⟨fields, rest⟩⟩
  · rfl
  · rfl
  · simp only [List.map_cons, ofType, Form.symbol?_unplaced, Form.isVector_unplaced,
      Form.span_unplaced]
    cases nameForm.symbol? with
    | none => rfl
    | some name =>
      cases fields.isVector with
      | false => rfl
      | true =>
        have positional := factory_unplaced site span ("->" ++ name)
          ("Positional factory function for class " ++ site.className name ++ ".") fields
        have fromMap := factory_unplaced site span ("map->" ++ name)
          ("Factory function for class " ++ site.className name ++
            ", taking a map of keywords to field values.")
          (.group .vector [.atom (.symbol "m") fields.span []] fields.span [])
        cases isRecord with
        | false => exact congrArg (fun first => [first]) positional
        | true =>
          exact (congrArg (fun first => [first, _]) positional).trans
            (congrArg (fun second => [_, second]) fromMap)

theorem ofForm_unplaced (site : Site) (form : Form) :
    (ofForm site.unplaced form.unplaced).map unlocated =
      (ofForm site form).map (unlocated ∘ unplaced) := by
  unfold ofForm
  rw [Form.list?_unplaced, Form.head?_unplaced]
  cases form.list? with
  | none => rfl
  | some items =>
    cases form.head? with
    | none => rfl
    | some head =>
      simp only [Option.map_some, Form.span_unplaced, ← List.map_tail, ← List.map_take]
      generalize coreName head = called
      split
      · exact ofVar_unplaced site form.span items.tail
      · exact ofFunction_unplaced site form.span .openFunction items.tail
      · exact ofFunction_unplaced site form.span .privateFunction items.tail
      · exact ofFunction_unplaced site form.span .macroFunction items.tail
      · exact ofMultimethod_unplaced site form.span items.tail
      · exact ofVar_unplaced site form.span (items.tail.take 2)
      · exact ofDeclare_unplaced site form.span items.tail
      · exact ofProtocol_unplaced site form.span items.tail
      · exact ofType_unplaced site form.span true items.tail
      · exact ofType_unplaced site form.span false items.tail
      · rfl

end Definition

end VarDoc
