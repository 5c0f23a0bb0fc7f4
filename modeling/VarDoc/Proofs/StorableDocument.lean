import VarDoc.Command
import VarDoc.Proofs.Storable
import VarDoc.Proofs.Traversal

/-! Documents built from sources can always be stored. Objects of a running
program enter the metadata of a var under a few keys only, and a record keeps
none of them. So every definition has storable metadata, loading keeps it so,
and neither a snapshot nor a command that writes one fails over a value. -/

set_option autoImplicit false

namespace VarDoc

namespace Definition

theorem arglistsValue_storable (form : Form) : (arglistsValue form).Storable := by
  unfold arglistsValue
  simp only
  split
  · refine .seq fun item member => ?_
    obtain ⟨inner, -, rfl⟩ := List.mem_map.1 member
    exact .code inner
  · refine .seq fun item member => ?_
    obtain ⟨inner, -, rfl⟩ := List.mem_map.1 member
    exact .code inner
  · exact Value.ofForm_storable _

theorem codeSeq_storable (forms : List Form) : (codeSeq forms).Storable := by
  refine .seq fun item member => ?_
  obtain ⟨form, -, rfl⟩ := List.mem_map.1 member
  exact .code form

/-- Functions come into metadata only under keys that no record keeps. -/
theorem entryValue_storable (key : String) (form : Form) :
    StorableField key (entryValue key form) := by
  unfold entryValue
  split
  next inlined =>
    refine .of_dropped ?_ _
    rcases inlined with rfl | rfl <;> decide
  · split
    · exact .of_storable (arglistsValue_storable form) key
    · exact .of_storable (Value.ofForm_storable form) key

theorem mergeEntries_storable {metadata : Metadata} (storable : StorableMetadata metadata)
    (entries : List (Form × Form)) : StorableMetadata (mergeEntries metadata entries) := by
  refine storable.insertAll fun field member => ?_
  obtain ⟨⟨key, form⟩, -, made⟩ := List.mem_filterMap.1 member
  obtain ⟨name, -, rfl⟩ := Option.map_eq_some_iff.1 made
  exact entryValue_storable name form

theorem named?_storable {form : Form} {name : String} {metadata : Metadata}
    (found : named? form = some (name, metadata)) : StorableMetadata metadata := by
  obtain ⟨symbol, -, made⟩ := Option.map_eq_some_iff.1 found
  cases made
  exact mergeEntries_storable .empty _

theorem firstNamed?_storable {forms : List Form} {name : String} {metadata : Metadata}
    (found : firstNamed? forms = some (name, metadata)) : StorableMetadata metadata := by
  obtain ⟨form, -, made⟩ := Option.bind_eq_some_iff.1 found
  exact named?_storable made

theorem takeDoc_storable {metadata : Metadata} (storable : StorableMetadata metadata)
    (forms : List Form) : StorableMetadata (takeDoc metadata forms).1 := by
  unfold takeDoc
  split
  · exact storable.insert (.of_storable (.text _) _)
  · exact storable

theorem takeAttributes_storable {metadata : Metadata} (storable : StorableMetadata metadata)
    (forms : List Form) : StorableMetadata (takeAttributes metadata forms).1 := by
  unfold takeAttributes
  split
  · exact mergeEntries_storable storable _
  · exact storable

/-- The namespace itself is an object of a running program, but a record keeps
only its name. -/
theorem identify_storable {metadata : Metadata} (storable : StorableMetadata metadata)
    (site : Site) (name : String) (span : Span) :
    StorableMetadata (site.identify name span metadata) := by
  refine storable.insertAll fun field member => ?_
  simp only [List.mem_cons, List.not_mem_nil, or_false] at member
  rcases member with rfl | rfl | rfl | rfl | rfl
  · exact .of_printed (.inr rfl) _
  · exact .of_printed (.inl rfl) _
  · exact .of_storable (.text _) _
  · exact .of_storable (.int _) _
  · exact .of_storable (.int _) _

theorem ofVar_storable (site : Site) (span : Span) (arguments : List Form) :
    ∀ definition ∈ ofVar site span arguments, StorableMetadata definition.2 := by
  intro definition member
  unfold ofVar at member
  split at member
  · contradiction
  next name metadata found =>
    have written := firstNamed?_storable found
    cases List.mem_singleton.1 member
    apply identify_storable
    split
    · exact takeDoc_storable written _
    · exact written

theorem flag_storable (kind : FunctionKind) :
    ∀ field ∈ kind.flag, StorableField field.1 field.2 := by
  intro field member
  cases kind with
  | openFunction => contradiction
  | privateFunction =>
    cases List.mem_singleton.1 member
    exact .of_storable (.bool true) _
  | macroFunction =>
    cases List.mem_singleton.1 member
    exact .of_storable (.bool true) _

theorem ofFunction_storable (site : Site) (span : Span) (kind : FunctionKind)
    (arguments : List Form) :
    ∀ definition ∈ ofFunction site span kind arguments, StorableMetadata definition.2 := by
  intro definition member
  unfold ofFunction at member
  split at member
  · contradiction
  next name written found =>
    cases List.mem_singleton.1 member
    have merged := mergeEntries_storable
      (takeAttributes_storable (takeDoc_storable (firstNamed?_storable found) arguments.tail)
        (takeDoc written arguments.tail).2)
      (signatures (takeAttributes (takeDoc written arguments.tail).1
        (takeDoc written arguments.tail).2).2).2
    refine identify_storable (Dict.All.insertAll ?_ (flag_storable kind)) site name span
    exact iteInduction (motive := StorableMetadata) (fun _ => merged)
      (fun _ => merged.insert (.of_storable (codeSeq_storable _) _))

theorem ofMultimethod_storable (site : Site) (span : Span) (arguments : List Form) :
    ∀ definition ∈ ofMultimethod site span arguments, StorableMetadata definition.2 := by
  intro definition member
  unfold ofMultimethod at member
  split at member
  · contradiction
  next name written found =>
    cases List.mem_singleton.1 member
    exact identify_storable
      (takeAttributes_storable (takeDoc_storable (firstNamed?_storable found) _) _) _ _ _

theorem ofDeclare_storable (site : Site) (span : Span) (arguments : List Form) :
    ∀ definition ∈ ofDeclare site span arguments, StorableMetadata definition.2 := by
  intro definition member
  obtain ⟨⟨name, metadata⟩, found, rfl⟩ := List.mem_map.1 member
  obtain ⟨form, -, made⟩ := List.mem_filterMap.1 found
  exact identify_storable
    ((named?_storable made).insert (.of_storable (.bool true) _)) _ _ _

/-- The protocol of a method is a var, under a key that no record keeps. -/
theorem ofSignature_storable {site : Site} {protocol : String} {signature : Form}
    {definition : Definition} (made : ofSignature site protocol signature = some definition) :
    StorableMetadata definition.2 := by
  obtain ⟨items, -, made⟩ := Option.bind_eq_some_iff.1 made
  obtain ⟨⟨name, written⟩, found, rfl⟩ := Option.map_eq_some_iff.1 made
  have listed : StorableMetadata
      (written.insert "arglists" (codeSeq (items.tail.filter Form.isVector))) :=
    (firstNamed?_storable found).insert (.of_storable (codeSeq_storable _) _)
  refine identify_storable (Dict.All.insert ?_ (.of_dropped (by decide) _)) _ _ _
  split
  · exact listed.insert (.of_storable (.text _) _)
  · exact listed

theorem ofProtocol_storable (site : Site) (span : Span) (arguments : List Form) :
    ∀ definition ∈ ofProtocol site span arguments, StorableMetadata definition.2 := by
  intro definition member
  unfold ofProtocol at member
  split at member
  · contradiction
  next name written found =>
    rcases List.mem_cons.1 member with rfl | method
    · exact identify_storable (takeDoc_storable (firstNamed?_storable found) _) _ _ _
    · obtain ⟨signature, -, made⟩ := List.mem_filterMap.1 method
      exact ofSignature_storable made

theorem factory_storable (site : Site) (span : Span) (name doc : String) (parameters : Form) :
    StorableMetadata (factory site span name doc parameters).2 := by
  refine identify_storable (Dict.All.ofList fun field member => ?_) _ _ _
  simp only [List.mem_cons, List.not_mem_nil, or_false] at member
  rcases member with rfl | rfl
  · exact .of_storable (codeSeq_storable _) _
  · exact .of_storable (.text _) _

theorem ofType_storable (site : Site) (span : Span) (isRecord : Bool) (arguments : List Form) :
    ∀ definition ∈ ofType site span isRecord arguments, StorableMetadata definition.2 := by
  intro definition member
  unfold ofType at member
  split at member
  · split at member
    · simp only at member
      split at member
      · simp only [List.mem_cons, List.not_mem_nil, or_false] at member
        rcases member with rfl | rfl <;> exact factory_storable _ _ _ _ _
      · cases List.mem_singleton.1 member
        exact factory_storable _ _ _ _ _
    · contradiction
  · contradiction

theorem ofForm_storable (site : Site) (form : Form) :
    ∀ definition ∈ ofForm site form, StorableMetadata definition.2 := by
  intro definition member
  unfold ofForm at member
  split at member
  · simp only at member
    split at member
    · exact ofVar_storable _ _ _ _ member
    · exact ofFunction_storable _ _ _ _ _ member
    · exact ofFunction_storable _ _ _ _ _ member
    · exact ofFunction_storable _ _ _ _ _ member
    · exact ofMultimethod_storable _ _ _ _ member
    · exact ofVar_storable _ _ _ _ member
    · exact ofDeclare_storable _ _ _ _ member
    · exact ofProtocol_storable _ _ _ _ member
    · exact ofType_storable _ _ _ _ _ member
    · exact ofType_storable _ _ _ _ _ member
    · contradiction
  · contradiction

end Definition

namespace Loading

/-- Whatever interning the definitions of one form keeps, a whole load keeps:
the other tasks of an agenda leave the vars as they are. -/
theorem run_invariant {loading : Loading} (invariant : Dict Metadata → Prop)
    (interned : ∀ (vars : Dict Metadata) (origin : SourceUnit) (form : Form),
      invariant vars → invariant (vars.insertAll (Definition.ofForm origin.site form)))
    {visited : Visited} {vars result : Dict Metadata} {tasks : List LoadTask}
    (ran : (loading.run visited vars tasks).value = .ok result) (before : invariant vars) :
    invariant result := by
  fun_induction loading.run visited vars tasks with
  | case1 =>
    cases ran
    exact before
  | case2 => cases ran
  | case3 _ _ _ _ _ _ _ _ ih => exact ih ran before
  | case4 _ _ _ _ _ _ _ _ ih => exact ih ran before
  | case5 _ vars origin form _ _ _ ih => exact ih ran (interned vars origin form before)
  | case6 => cases ran
  | case7 _ _ _ _ _ _ _ ihSkipped ihOpened ihKnown =>
    simp only [Logged.after] at ran
    split at ran
    next new =>
      split at ran
      · cases ran
      next text forms opened =>
        simp only at ran
        split at ran
        · exact ihSkipped new text forms opened ran before
        · exact ihOpened new text forms opened ran before
    · exact ihKnown ran before

def StorableVars (vars : Dict Metadata) : Prop := vars.All fun _ metadata => StorableMetadata metadata

theorem load_storable {loading : Loading} {path : Path} {vars : Dict Metadata}
    (loaded : (loading.load path).value = .ok vars) : StorableVars vars := by
  unfold load at loaded
  simp only [Logged.after] at loaded
  split at loaded
  · cases loaded
  · refine run_invariant StorableVars ?_ loaded .empty
    intro vars origin form storable
    exact storable.insertAll (Definition.ofForm_storable origin.site form)

end Loading

namespace Loader

theorem load_storable {loader updated : Loader} {tree : FileTree} {source : SourceFile}
    {name : String} {space : Namespace}
    (loaded : (loader.load tree source name).value = (.ok space, updated)) :
    Loading.StorableVars space.vars := by
  unfold load at loaded
  simp only at loaded
  split at loaded
  · cases loaded
  next vars succeeded =>
    cases loaded
    exact Loading.load_storable succeeded

theorem resolve_storable {loader updated : Loader} {tree : FileTree} {source : SourceFile}
    {resolved : Module} (succeeded : (loader.resolve tree source).value = (.ok resolved, updated)) :
    ∀ record ∈ resolved.records, record.fields.All fun _ value => value.Storable := by
  unfold resolve at succeeded
  split at succeeded
  · cases succeeded
  next name _ =>
    simp only [Logged.after, Logged.bind] at succeeded
    split at succeeded
    · cases succeeded
    next space loaded =>
      cases succeeded
      intro record member
      obtain ⟨metadata, isPublic, rfl⟩ := List.mem_map.1 member
      have isVar := (List.mem_filter.1 isPublic).1
      have both : (loader.load tree source name).value =
          (.ok space, (loader.load tree source name).value.2) := Prod.ext loaded rfl
      have storable := load_storable both
      exact Record.normalize_storable (Dict.All.mem_values storable isVar)

end Loader

namespace Document

def Storable (document : Document) : Prop :=
  ∀ space ∈ document.namespaces.entries, ∀ record ∈ space.2, ∀ field ∈ record.fields.entries,
    field.2.Storable

theorem Storable.insert {document : Document} (storable : document.Storable) (name : String)
    {records : List Record}
    (new : ∀ record ∈ records, record.fields.All fun _ value => value.Storable) :
    (document.insert name records).Storable := by
  intro space member
  rcases mem_insertEntry member with rfl | earlier
  · exact new
  · exact storable space earlier

theorem storable_ofDescriptor (descriptor : Descriptor) : (ofDescriptor descriptor).Storable :=
  fun _ member => absurd member List.not_mem_nil

def Plain (document : Document) : Prop :=
  ∀ space ∈ document.namespaces.entries, ∀ record ∈ space.2, ∀ field ∈ record.fields.entries,
    field.2.isPlain = true

theorem Storable.plain {document : Document} (storable : document.Storable) : document.Plain :=
  fun space inDocument record inSpace field inRecord =>
    (storable space inDocument record inSpace field inRecord).isPlain

theorem recordsToJson_of_plain {records : List Record}
    (plain : ∀ record ∈ records, ∀ field ∈ record.fields.entries, field.2.isPlain = true) :
    ∃ json, recordsToJson records = .ok json := by
  obtain ⟨items, written⟩ := exists_mapM_ok fun record member => Record.toJson_of_plain (plain record member)
  exact ⟨.array items, by rw [recordsToJson, written]; rfl⟩

theorem toJson_of_plain {document : Document} (plain : document.Plain) :
    ∃ json, document.toJson = .ok json := by
  have spaceWritten : ∀ space ∈ document.namespaces.entries,
      ∃ json, namespaceToJson space = .ok json := by
    intro space inDocument
    obtain ⟨records, written⟩ := recordsToJson_of_plain (plain space inDocument)
    exact ⟨(space.1, records), by rw [namespaceToJson, written]; rfl⟩
  obtain ⟨spaces, written⟩ := exists_mapM_ok spaceWritten
  exact ⟨_, by rw [toJson, namespacesToJson, written]; rfl⟩

end Document

namespace Snapshot

theorem write_value {document : Document} {json : Json} (written : document.toJson = .ok json)
    (tree : FileTree) (directory : Path) (level : Nat) :
    (write tree document directory level).value =
      match tree.makeDirectories directory with
      | .error cause => .error (.file directory cause)
      | .ok made =>
        let path := directory.join ⟨document.fileName⟩
        match made.write path (encode json.render) with
        | .error cause => .error (.file path cause)
        | .ok grown => .ok (path, grown) := by
  unfold write
  cases tree.makeDirectories directory with
  | error cause => rfl
  | ok made =>
    simp only [Logged.after, contentOf, written]
    cases made.write (directory.join ⟨document.fileName⟩) (encode json.render) <;> rfl

theorem write_error {document : Document} {json : Json} (written : document.toJson = .ok json)
    {tree : FileTree} {directory : Path} {level : Nat} {error : SnapshotError}
    (failed : (write tree document directory level).value = .error error) :
    ∃ path cause, error = .file path cause := by
  rw [write_value written] at failed
  split at failed
  · cases failed
    exact ⟨_, _, rfl⟩
  · simp only at failed
    split at failed
    · cases failed
      exact ⟨_, _, rfl⟩
    · cases failed

end Snapshot

theorem FileTree.write_error {tree : FileTree} {path : Path} {content : ByteArray}
    {error : FileError} (failed : tree.write path content = .error error) (other : ByteArray) :
    tree.write path other = .error error := by
  unfold write at failed ⊢
  split at failed
  next refused => exact failed
  next place => exact failed
  next names name place =>
    split at failed
    next children found => exact failed
    · cases failed

namespace Aggregation

theorem collect_storable (tree : FileTree) (sources : List SourceFile) {document : Document}
    (loader : Loader) (storable : document.Storable) :
    (collect tree document loader sources).value.1.document.Storable := by
  induction sources generalizing document loader with
  | nil => exact storable
  | cons source rest ih =>
    simp only [collect, Logged.bind, Logged.after]
    split
    next resolved succeeded =>
      exact ih _ (storable.insert _ (Loader.resolve_storable (Prod.ext succeeded rfl)))
    · exact ih _ storable

theorem collect_fileName (tree : FileTree) (sources : List SourceFile) (document : Document)
    (loader : Loader) :
    (collect tree document loader sources).value.1.document.fileName = document.fileName := by
  induction sources generalizing document loader with
  | nil => rfl
  | cons source rest ih =>
    simp only [collect, Logged.bind, Logged.after]
    split
    · rw [ih]
      rfl
    · exact ih _ _

end Aggregation

theorem aggregate_storable (tree : FileTree) (descriptor : Descriptor)
    (sources : List SourceFile) (loader : Loader) :
    (aggregate tree descriptor sources loader).value.1.document.Storable :=
  Aggregation.collect_storable tree sources loader (Document.storable_ofDescriptor descriptor)

namespace Command

variable {tree : FileTree} {settings : Settings} {output : Option Path} {error : CommandError}

theorem writeSnapshot_value (tree : FileTree) (settings : Settings) (output : Option Path)
    (descriptor : Descriptor) (sources : List SourceFile) :
    (writeSnapshot tree settings output descriptor sources).value =
      ((Snapshot.write tree
        (aggregate tree descriptor sources (Loader.new settings.features)).value.1.document
        (outputDirectory settings output)
        (settings.compression.getD Snapshot.standardLevel)).value).mapError
          (.writing (outputDirectory settings output)) := by
  unfold writeSnapshot
  simp only [Logged.after, Logged.bind]
  split
  next failed => rw [failed]; rfl
  next written => rw [written]; rfl

theorem writeSnapshot_error {descriptor : Descriptor} {sources : List SourceFile}
    (failed : (writeSnapshot tree settings output descriptor sources).value = .error error) :
    ∃ place path cause, error = .writing place (.file path cause) := by
  obtain ⟨json, serialized⟩ := Document.toJson_of_plain
    (aggregate_storable tree descriptor sources (Loader.new settings.features)).plain
  rw [writeSnapshot_value] at failed
  generalize outcome : (Snapshot.write tree _ _ _).value = result at failed
  cases result with
  | ok written => cases failed
  | error refused =>
    cases failed
    obtain ⟨path, cause, rfl⟩ := Snapshot.write_error serialized outcome
    exact ⟨_, path, cause, rfl⟩

/-- A snapshot that cannot be written cannot be written from other sources
either: the reason is in the output directory alone. -/
theorem writeSnapshot_error_of_sources {descriptor : Descriptor} {sources : List SourceFile}
    (failed : (writeSnapshot tree settings output descriptor sources).value = .error error)
    (others : List SourceFile) :
    (writeSnapshot tree settings output descriptor others).value = .error error := by
  obtain ⟨json, serialized⟩ := Document.toJson_of_plain
    (aggregate_storable tree descriptor sources (Loader.new settings.features)).plain
  obtain ⟨otherJson, otherSerialized⟩ := Document.toJson_of_plain
    (aggregate_storable tree descriptor others (Loader.new settings.features)).plain
  have fileName (list : List SourceFile) :
      (aggregate tree descriptor list (Loader.new settings.features)).value.1.document.fileName =
        (Document.ofDescriptor descriptor).fileName :=
    Aggregation.collect_fileName _ _ _ _
  rw [writeSnapshot_value, Snapshot.write_value serialized, fileName] at failed
  rw [writeSnapshot_value, Snapshot.write_value otherSerialized, fileName]
  cases made : tree.makeDirectories (outputDirectory settings output) with
  | error cause => simpa only [made] using failed
  | ok grown =>
    simp only [made] at failed ⊢
    cases refused : grown.write ((outputDirectory settings output).join
        ⟨(Document.ofDescriptor descriptor).fileName⟩) (Snapshot.encode json.render) with
    | error cause =>
      simp only [refused] at failed
      rw [FileTree.write_error refused]
      exact failed
    | ok written =>
      simp only [refused] at failed
      cases failed

theorem snapshotProject_error {directory : Path}
    (failed : (snapshotProject tree settings output directory).value = .error error) :
    (∃ cause, error = .project directory cause) ∨ (∃ cause, error = .discovery cause) ∨
      ∃ place path cause, error = .writing place (.file path cause) := by
  unfold snapshotProject at failed
  simp only [Logged.after, Logged.bind] at failed
  split at failed
  next cause _ =>
    cases failed
    exact .inl ⟨cause, rfl⟩
  · split at failed
    next cause _ =>
      cases failed
      exact .inr (.inl ⟨cause, rfl⟩)
    · exact .inr (.inr (writeSnapshot_error failed))

theorem snapshotClojure_error {root : Path} {version : String}
    (failed : (snapshotClojure tree settings output root version).value = .error error) :
    (∃ cause, error = .discovery cause) ∨
      ∃ place path cause, error = .writing place (.file path cause) := by
  unfold snapshotClojure at failed
  simp only [Logged.after, Logged.bind] at failed
  split at failed
  next cause _ =>
    cases failed
    exact .inl ⟨cause, rfl⟩
  · exact .inr (writeSnapshot_error failed)

end Command

/-- No source text stands in the way of a snapshot. The document has only
storable values, so it has a JSON; writing it fails in the file system or not
at all, and a command that writes it fails over its sources in no other way
than it would without them. -/
theorem sources_never_prevent_snapshot (tree : FileTree) (descriptor : Descriptor)
    (sources : List SourceFile) (loader : Loader) :
    let document := (aggregate tree descriptor sources loader).value.1.document
    (∀ space ∈ document.namespaces.entries, ∀ record ∈ space.2,
      ∀ field ∈ record.fields.entries, field.2.Storable) ∧
    (∃ json, document.toJson = .ok json) ∧
    (∀ (target : FileTree) (directory : Path) (level : Nat) (error : SnapshotError),
      (Snapshot.write target document directory level).value = .error error →
        ∃ path cause, error = .file path cause) ∧
    (∀ (settings : Settings) (output : Option Path) (error : CommandError)
      (others : List SourceFile),
      (Command.writeSnapshot tree settings output descriptor sources).value = .error error →
        (Command.writeSnapshot tree settings output descriptor others).value = .error error) ∧
    (∀ (settings : Settings) (output : Option Path) (directory : Path) (error : CommandError),
      (Command.snapshotProject tree settings output directory).value = .error error →
        (∃ cause, error = .project directory cause) ∨ (∃ cause, error = .discovery cause) ∨
          ∃ place path cause, error = .writing place (.file path cause)) ∧
    (∀ (settings : Settings) (output : Option Path) (root : Path) (version : String)
      (error : CommandError),
      (Command.snapshotClojure tree settings output root version).value = .error error →
        (∃ cause, error = .discovery cause) ∨
          ∃ place path cause, error = .writing place (.file path cause)) := by
  intro document
  have storable : document.Storable := aggregate_storable tree descriptor sources loader
  obtain ⟨json, serialized⟩ := Document.toJson_of_plain storable.plain
  refine ⟨storable, ⟨json, serialized⟩, ?_, ?_, ?_, ?_⟩
  · intro target directory level error failed
    exact Snapshot.write_error serialized failed
  · intro settings output error others failed
    exact Command.writeSnapshot_error_of_sources failed others
  · intro settings output directory error failed
    exact Command.snapshotProject_error failed
  · intro settings output root version error failed
    exact Command.snapshotClojure_error failed

end VarDoc
