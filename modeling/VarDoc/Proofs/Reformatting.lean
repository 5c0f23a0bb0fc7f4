import VarDoc.Proofs.LoaderHistory
import VarDoc.Proofs.LoadingSteps
import VarDoc.Proofs.ReformattedFiles
import VarDoc.Proofs.StorableDocument
import VarDoc.Proofs.UnplacedRecord

/-! Documentation does not depend on how source texts are laid out. A load in a
tree with reformatted files takes the same steps: its states differ in places
only, and a place ends up nowhere but in the line and column of a var and in
the location of an error. -/

set_option autoImplicit false

namespace VarDoc

def SourceUnit.unplaced (origin : SourceUnit) : SourceUnit :=
  { origin with site := origin.site.unplaced }

def LoadTask.unplaced : LoadTask → LoadTask
  | .form origin pending => .form origin.unplaced pending.unplaced
  | .resource origin name => .resource origin name

def LoadState.unplaced (state : LoadState) : LoadState :=
  ⟨state.visited, state.vars.map Metadata.placeless, state.tasks.map LoadTask.unplaced⟩

theorem Form.eq_of_unplaced {α : Type} (look : Form → α)
    (blind : ∀ form, look form.unplaced = look form) {form other : Form}
    (same : form.unplaced = other.unplaced) : look other = look form := by
  rw [← blind other, ← same, blind form]

theorem Form.isCallTo_eq {form other : Form} {name : String}
    (same : form.unplaced = other.unplaced) : other.isCallTo name = form.isCallTo name :=
  eq_of_unplaced (isCallTo · name) (isCallTo_unplaced · name) same

namespace LoadState

variable {visited : Visited} {vars : Dict Metadata} {rest : List LoadTask} {other : LoadState}

theorem unplaced_form {origin : SourceUnit} {form : Form}
    (same : (mk visited vars (.form origin form :: rest)).unplaced = other.unplaced) :
    ∃ vars' origin' form' rest', other = ⟨visited, vars', .form origin' form' :: rest'⟩ ∧
      vars.map Metadata.placeless = vars'.map Metadata.placeless ∧
      origin.unplaced = origin'.unplaced ∧ form.unplaced = form'.unplaced ∧
      rest.map LoadTask.unplaced = rest'.map LoadTask.unplaced := by
  obtain ⟨visited', vars', tasks'⟩ := other
  obtain ⟨rfl, sameVars, sameTasks⟩ := LoadState.mk.inj same
  cases tasks' with
  | nil => contradiction
  | cons task rest' =>
    obtain ⟨sameTask, sameRest⟩ := List.cons.inj sameTasks
    cases task with
    | resource => contradiction
    | form origin' form' =>
      obtain ⟨sameOrigin, sameForm⟩ := LoadTask.form.inj sameTask
      exact ⟨vars', origin', form', rest', rfl, sameVars, sameOrigin, sameForm, sameRest⟩

theorem unplaced_resource {origin : Path} {name : String}
    (same : (mk visited vars (.resource origin name :: rest)).unplaced = other.unplaced) :
    ∃ vars' rest', other = ⟨visited, vars', .resource origin name :: rest'⟩ ∧
      vars.map Metadata.placeless = vars'.map Metadata.placeless ∧
      rest.map LoadTask.unplaced = rest'.map LoadTask.unplaced := by
  obtain ⟨visited', vars', tasks'⟩ := other
  obtain ⟨rfl, sameVars, sameTasks⟩ := LoadState.mk.inj same
  cases tasks' with
  | nil => contradiction
  | cons task rest' =>
    obtain ⟨sameTask, sameRest⟩ := List.cons.inj sameTasks
    cases task with
    | form => contradiction
    | resource =>
      obtain ⟨rfl, rfl⟩ := LoadTask.resource.inj sameTask
      exact ⟨vars', rest', rfl, sameVars, sameRest⟩

theorem unplaced_mk {vars' : Dict Metadata} {tasks tasks' : List LoadTask}
    (sameVars : vars.map Metadata.placeless = vars'.map Metadata.placeless)
    (sameTasks : tasks.map LoadTask.unplaced = tasks'.map LoadTask.unplaced) :
    (mk visited vars tasks).unplaced = (mk visited vars' tasks').unplaced := by
  simp only [unplaced, sameVars, sameTasks]

end LoadState

theorem interned_placeless {vars vars' : Dict Metadata} {site site' : Site} {form form' : Form}
    (sameVars : vars.map Metadata.placeless = vars'.map Metadata.placeless)
    (sameSite : site.unplaced = site'.unplaced) (sameForm : form.unplaced = form'.unplaced) :
    (vars.insertAll (Definition.ofForm site form)).map Metadata.placeless =
      (vars'.insertAll (Definition.ofForm site' form')).map Metadata.placeless := by
  have defined (site : Site) (form : Form) :
      ((Definition.ofForm site form).map fun entry => (entry.1, Metadata.placeless entry.2)) =
        (Definition.ofForm site.unplaced form.unplaced).map Definition.unlocated :=
    (Definition.ofForm_unplaced site form).symm
  rw [Dict.map_insertAll, Dict.map_insertAll, defined, defined, sameVars, sameSite, sameForm]

namespace Loading

section
variable {loading : Loading} {tree : FileTree} {view : LexError → LexError}

theorem tasksOf_unplaced (loading : Loading) (path : Path) (isMain : Bool) {text text' : String}
    {forms forms' : List Form} (same : forms.map Form.unplaced = forms'.map Form.unplaced) :
    (loading.tasksOf path isMain (text, forms)).map LoadTask.unplaced =
      (loading.tasksOf path isMain (text', forms')).map LoadTask.unplaced := by
  have tasks (text : String) (forms : List Form) :
      (loading.tasksOf path isMain (text, forms)).map LoadTask.unplaced =
        (forms.map Form.unplaced).map (.form (loading.unitOf path isMain "").unplaced) := by
    rw [tasksOf, List.map_map, List.map_map]
    rfl
  rw [tasks, tasks, same]

theorem otherNamespace?_unplaced (loading : Loading) {forms forms' : List Form}
    (same : forms.map Form.unplaced = forms'.map Form.unplaced) :
    loading.otherNamespace? forms' = loading.otherNamespace? forms := by
  rw [otherNamespace?, otherNamespace?, ← switchedNamespace?_unplaced forms', ← same,
    switchedNamespace?_unplaced]

variable (reformatted : loading.tree.Reformatted view tree)
include reformatted

theorem openFile_ok {path : Path} {text : String} {forms : List Form}
    (opened : loading.openFile path = .ok (text, forms)) :
    ∃ text' forms', (loading.inTree tree).openFile path = .ok (text', forms') ∧
      forms.map Form.unplaced = forms'.map Form.unplaced := by
  rcases exceptBoth_cases (openFile_inTree reformatted path) with
    ⟨_, _, _, failed, _⟩ | ⟨found', found, opened', known, same⟩
  · cases opened.symm.trans failed
  · cases opened.symm.trans known
    exact ⟨found'.1, found'.2, opened', same.symm⟩

theorem openFile_error {path : Path} {error : LoadError}
    (failed : loading.openFile path = .error error) :
    ∃ error', (loading.inTree tree).openFile path = .error error' ∧
      error.unplaced view = error'.unplaced view := by
  rcases exceptBoth_cases (openFile_inTree reformatted path) with
    ⟨error', found, failed', known, same⟩ | ⟨_, _, _, opened, _⟩
  · cases failed.symm.trans known
    exact ⟨error', failed', same.symm⟩
  · cases failed.symm.trans opened

/-- Every step can be taken in the other tree, to a state that differs in
places only. -/
theorem Step.inTree {state after other : LoadState} {events : List Event}
    (step : loading.Step state events after) (same : state.unplaced = other.unplaced) :
    ∃ after', (loading.inTree tree).Step other events after' ∧ after.unplaced = after'.unplaced := by
  -- Which step a form calls for is seen without its places, and where a resource is
  -- found does not depend on texts.
  cases step with
  | declaration declares agrees =>
    obtain ⟨vars', origin', form', rest', rfl, sameVars, sameOrigin, sameForm, sameRest⟩ :=
      LoadState.unplaced_form same
    obtain ⟨-, sameMain, -⟩ := SourceUnit.mk.inj sameOrigin
    refine ⟨_, .declaration ?_ ?_, LoadState.unplaced_mk sameVars sameRest⟩
    · rw [Form.isCallTo_eq sameForm, declares]
    · rw [Form.eq_of_unplaced _ declaredSymbol?_unplaced sameForm, ← sameMain]
      exact agrees
  | load other loads =>
    obtain ⟨vars', origin', form', rest', rfl, sameVars, sameOrigin, sameForm, sameRest⟩ :=
      LoadState.unplaced_form same
    obtain ⟨samePath, -, -⟩ := SourceUnit.mk.inj sameOrigin
    have loads' := (Form.eq_of_unplaced _ loadResources?_unplaced sameForm).trans loads
    refine ⟨_, .load ?_ loads', LoadState.unplaced_mk sameVars ?_⟩
    · rw [Form.isCallTo_eq sameForm, other]
    · rw [List.map_append, List.map_append, sameRest, ← samePath]
  | definition other loadsNothing =>
    obtain ⟨vars', origin', form', rest', rfl, sameVars, sameOrigin, sameForm, sameRest⟩ :=
      LoadState.unplaced_form same
    obtain ⟨-, -, sameSite⟩ := SourceUnit.mk.inj sameOrigin
    refine ⟨_, .definition ?_ ?_,
      LoadState.unplaced_mk (interned_placeless sameVars sameSite sameForm) sameRest⟩
    · rw [Form.isCallTo_eq sameForm, other]
    · rw [Form.eq_of_unplaced _ loadResources?_unplaced sameForm, loadsNothing]
  | known found met =>
    obtain ⟨vars', rest', rfl, sameVars, sameRest⟩ := LoadState.unplaced_resource same
    have found' := (find?_inTree reformatted _ _).trans found
    exact ⟨_, .known found' met, LoadState.unplaced_mk sameVars sameRest⟩
  | skipped found new opened switches =>
    obtain ⟨vars', rest', rfl, sameVars, sameRest⟩ := LoadState.unplaced_resource same
    have found' := (find?_inTree reformatted _ _).trans found
    obtain ⟨text', forms', opened', sameForms⟩ := openFile_ok reformatted opened
    have switches' := (otherNamespace?_unplaced loading sameForms).trans switches
    exact ⟨_, .skipped found' new opened' switches', LoadState.unplaced_mk sameVars sameRest⟩
  | entered found new opened stays =>
    obtain ⟨vars', rest', rfl, sameVars, sameRest⟩ := LoadState.unplaced_resource same
    have found' := (find?_inTree reformatted _ _).trans found
    obtain ⟨text', forms', opened', sameForms⟩ := openFile_ok reformatted opened
    have stays' := (otherNamespace?_unplaced loading sameForms).trans stays
    refine ⟨_, .entered found' new opened' stays', LoadState.unplaced_mk sameVars ?_⟩
    rw [List.map_append, List.map_append, sameRest, tasksOf_unplaced loading _ false sameForms]
    rfl

theorem Stuck.inTree {state other : LoadState} {events : List Event} {error : LoadError}
    (stuck : loading.Stuck state events error) (same : state.unplaced = other.unplaced) :
    ∃ error', (loading.inTree tree).Stuck other events error' ∧
      error.unplaced view = error'.unplaced view := by
  cases stuck with
  | mismatch declares differs =>
    obtain ⟨vars', origin', form', rest', rfl, sameVars, sameOrigin, sameForm, sameRest⟩ :=
      LoadState.unplaced_form same
    obtain ⟨samePath, sameMain, -⟩ := SourceUnit.mk.inj sameOrigin
    have symbol := Form.eq_of_unplaced _ declaredSymbol?_unplaced sameForm
    refine ⟨_, .mismatch ?_ ?_, ?_⟩
    · rw [Form.isCallTo_eq sameForm, declares]
    · rw [symbol, ← sameMain]
      exact differs
    · rw [symbol, ← samePath]
      rfl
  | missing absent =>
    obtain ⟨vars', rest', rfl, sameVars, sameRest⟩ := LoadState.unplaced_resource same
    exact ⟨_, .missing ((find?_inTree reformatted _ _).trans absent), rfl⟩
  | unreadable found new failed =>
    obtain ⟨vars', rest', rfl, sameVars, sameRest⟩ := LoadState.unplaced_resource same
    obtain ⟨error', failed', sameError⟩ := openFile_error reformatted failed
    exact ⟨error', .unreadable ((find?_inTree reformatted _ _).trans found) new failed', sameError⟩

/-- A whole run in the other tree tells the same events and ends alike. -/
theorem Runs.inTree {state other : LoadState} {events : List Event}
    {outcome : Except LoadError (Dict Metadata)} (runs : loading.Runs state events outcome)
    (same : state.unplaced = other.unplaced) :
    ∃ outcome', (loading.inTree tree).Runs other events outcome' ∧
      exceptBoth (LoadError.unplaced view) (Dict.map Metadata.placeless) outcome =
        exceptBoth (LoadError.unplaced view) (Dict.map Metadata.placeless) outcome' := by
  induction runs generalizing other with
  | done =>
    obtain ⟨visited', vars', tasks'⟩ := other
    obtain ⟨rfl, sameVars, sameTasks⟩ := LoadState.mk.inj same
    obtain rfl := List.map_eq_nil_iff.1 sameTasks.symm
    exact ⟨.ok vars', .done, congrArg Except.ok sameVars⟩
  | stuck cannot =>
    obtain ⟨error', cannot', sameError⟩ := cannot.inTree reformatted same
    exact ⟨.error error', .stuck cannot', congrArg Except.error sameError⟩
  | next step runs ih =>
    obtain ⟨after', step', sameAfter⟩ := step.inTree reformatted same
    obtain ⟨outcome', runs', sameOutcome⟩ := ih sameAfter
    exact ⟨outcome', .next step' runs', sameOutcome⟩

theorem load_inTree (path : Path) :
    (loading.load path).events = ((loading.inTree tree).load path).events ∧
      exceptBoth (LoadError.unplaced view) (Dict.map Metadata.placeless) (loading.load path).value =
        exceptBoth (LoadError.unplaced view) (Dict.map Metadata.placeless)
          ((loading.inTree tree).load path).value := by
  rcases loading.load_cases path with
    ⟨error, failed, loaded⟩ | ⟨text, forms, opened, events, outcome, runs, loaded⟩
  · obtain ⟨error', failed', sameError⟩ := openFile_error reformatted failed
    rcases (loading.inTree tree).load_cases path with
      ⟨error'', failed'', loaded'⟩ | ⟨_, _, opened', _, _, _, _⟩
    · obtain rfl := Except.error.inj (failed'.symm.trans failed'')
      rw [loaded, loaded']
      exact ⟨rfl, congrArg Except.error sameError⟩
    · cases failed'.symm.trans opened'
  · obtain ⟨text', forms', opened', sameForms⟩ := openFile_ok reformatted opened
    rcases (loading.inTree tree).load_cases path with
      ⟨_, failed', _⟩ | ⟨_, _, opened'', events', outcome', runs', loaded'⟩
    · cases failed'.symm.trans opened'
    · cases opened'.symm.trans opened''
      have starts : (loading.start path opened).unplaced =
          ((loading.inTree tree).start path opened'').unplaced :=
        LoadState.unplaced_mk rfl (tasksOf_unplaced loading path true sameForms)
      obtain ⟨ended, simulated, sameOutcome⟩ := runs.inTree reformatted starts
      obtain ⟨rfl, rfl⟩ := Logged.mk.inj (simulated.run_eq.symm.trans runs'.run_eq)
      rw [loaded, loaded']
      exact ⟨rfl, sameOutcome⟩

end

end Loading

namespace Loader

variable {view : LexError → LexError} {tree other : FileTree}

theorem load_alike (reformatted : tree.Reformatted view other) (loader : Loader)
    (source : SourceFile) (name : String) :
    (∃ events error error', loader.load tree source name = ⟨events, .error error, loader⟩ ∧
      loader.load other source name = ⟨events, .error error', loader⟩ ∧
      error.unplaced view = error'.unplaced view) ∨
    ∃ events vars vars' updated updated',
      loader.load tree source name = ⟨events, .ok ⟨name, vars⟩, updated⟩ ∧
      loader.load other source name = ⟨events, .ok ⟨name, vars'⟩, updated'⟩ ∧
      vars.map Metadata.placeless = vars'.map Metadata.placeless := by
  let loading : Loading := ⟨tree, loader.features, source.root, name⟩
  obtain ⟨sameEvents, sameValue⟩ :=
    Loading.load_inTree (show loading.tree.Reformatted view other from reformatted) source.path
  simp only [loading, Loading.inTree] at sameEvents sameValue
  unfold load
  dsimp only
  rw [sameEvents]
  rcases exceptBoth_cases sameValue with
    ⟨error, error', failed, failed', same⟩ | ⟨vars, vars', loaded, loaded', same⟩
  · rw [failed, failed']
    exact .inl ⟨_, error, error', rfl, rfl, same⟩
  · rw [loaded, loaded']
    exact .inr ⟨_, vars, vars', _, _, rfl, rfl, same⟩

theorem resolve_alike (reformatted : tree.Reformatted view other) (loader : Loader)
    (source : SourceFile) :
    (∃ events error error', loader.resolve tree source = ⟨events, .error error, loader⟩ ∧
      loader.resolve other source = ⟨events, .error error', loader⟩ ∧
      error.unplaced view = error'.unplaced view) ∨
    ∃ events name, ∃ publics publics' : List Metadata, ∃ updated updated',
      loader.resolve tree source =
        ⟨events, .ok ⟨name, publics.map Record.normalize⟩, updated⟩ ∧
      loader.resolve other source =
        ⟨events, .ok ⟨name, publics'.map Record.normalize⟩, updated'⟩ ∧
      publics.map Metadata.placeless = publics'.map Metadata.placeless := by
  unfold resolve declaredName
  rcases exceptBoth_cases (reformatted.declaredName_eq loader.features source.path) with
    ⟨error, error', failed, failed', same⟩ | ⟨name, name', declared, declared', same⟩
  · rw [failed, failed']
    exact .inl ⟨_, error, error', rfl, rfl, same⟩
  obtain rfl : name = name' := same
  rw [declared, declared']
  dsimp only
  rcases load_alike reformatted loader source name with
    ⟨events, error, error', failed, failed', same⟩ |
    ⟨events, vars, vars', updated, updated', loaded, loaded', same⟩
  · rw [failed, failed']
    exact .inl ⟨_, error, error', rfl, rfl, same⟩
  · rw [loaded, loaded']
    have publics : (Namespace.mk name vars).publics.map Metadata.placeless =
        (Namespace.mk name vars').publics.map Metadata.placeless := by
      rw [publics_placeless, publics_placeless, same]
    have count : (Namespace.mk name vars).publics.length = (Namespace.mk name vars').publics.length := by
      simpa using congrArg List.length publics
    refine .inr ⟨_, name, _, _, updated, updated', rfl, ?_, publics⟩
    simp only [Logged.after, Logged.bind, List.length_map, count]

theorem recordsToJson_of_resolve {loader updated : Loader} {tree : FileTree} {source : SourceFile}
    {events : List Event} {resolved : Module}
    (succeeded : loader.resolve tree source = ⟨events, .ok resolved, updated⟩) :
    ∃ json, Document.recordsToJson resolved.records = .ok json := by
  have storable := resolve_storable (congrArg Logged.value succeeded)
  exact Document.recordsToJson_of_plain fun record member field inRecord =>
    (storable record member field inRecord).isPlain

theorem resolve_of_load {loader : Loader} {tree : FileTree} {source : SourceFile} {name : String}
    {space : Namespace} (declared : loader.declaredName tree source = .ok name)
    (loaded : (loader.load tree source name).value.1 = .ok space) :
    (loader.resolve tree source).value.1 = .ok ⟨name, space.publics.map Record.normalize⟩ :=
  resolve_eq_ok_iff.2 ⟨space, declared, loaded, rfl⟩

end Loader

/-- Reformatting changes no documentation. In two trees whose source texts are
lexed alike, as far as `view` tells lexical errors apart, a source file is
resolved alike: it tells the same events and either fails with the same error,
up to the location in it, or gives the namespace of the same name, with records
whose JSON is the same once lines and columns are taken out. -/
theorem resolve_ignores_layout (view : LexError → LexError) (loader : Loader)
    {tree other : FileTree} (reformatted : tree.Reformatted view other) (source : SourceFile) :
    let resolved := loader.resolve tree source
    let resolved' := loader.resolve other source
    resolved.events = resolved'.events ∧
    ((∃ error error', resolved.value.1 = .error error ∧ resolved'.value.1 = .error error' ∧
        error.unplaced view = error'.unplaced view) ∨
      ∃ found found' json json', resolved.value.1 = .ok found ∧ resolved'.value.1 = .ok found' ∧
        found.name = found'.name ∧
        Document.recordsToJson found.records = .ok json ∧
        Document.recordsToJson found'.records = .ok json' ∧
        json.withoutEach placeKeys = json'.withoutEach placeKeys) := by
  rcases Loader.resolve_alike reformatted loader source with
    ⟨events, error, error', failed, failed', same⟩ |
    ⟨events, name, publics, publics', updated, updated', succeeded, succeeded', same⟩
  · intro resolved resolved'
    refine ⟨(congrArg Logged.events failed).trans (congrArg Logged.events failed').symm, .inl ?_⟩
    exact ⟨error, error', congrArg (·.value.1) failed, congrArg (·.value.1) failed', same⟩
  · intro resolved resolved'
    refine ⟨(congrArg Logged.events succeeded).trans (congrArg Logged.events succeeded').symm,
      .inr ?_⟩
    obtain ⟨json, written⟩ := Loader.recordsToJson_of_resolve succeeded
    obtain ⟨json', written'⟩ := Loader.recordsToJson_of_resolve succeeded'
    refine ⟨⟨name, publics.map Record.normalize⟩, ⟨name, publics'.map Record.normalize⟩, json, json',
      congrArg (·.value.1) succeeded, congrArg (·.value.1) succeeded', rfl, written, written', ?_⟩
    have placeless := recordsToJson_placeless written
    rw [same] at placeless
    exact Except.ok.inj (placeless.symm.trans (recordsToJson_placeless written'))

/-- The files of a namespace, each written without a blank too many and then
spread over lines, with comments. -/
def layouts : List (String × String × String) :=
  [("a.clj", "(ns a)(load\"b\")", "; Main.\n(ns a)\n\n(load \"b\")\n"),
    ("b.clj", "(defn f[x]x)(def g 1)", "(defn f\n  [x]\n  x)\n(def g, 1) ; one\n")]

def denseTree : FileTree := .flat (layouts.map fun file => (file.1, file.2.1))

def airyTree : FileTree := .flat (layouts.map fun file => (file.1, file.2.2))

/-- Both layouts give two records, alike but for lines and columns. -/
theorem airy_resolved_like_dense :
    denseTree.Reformatted id airyTree ∧
    let resolved := (Loader.new ["clj"]).resolve denseTree ⟨⟨"."⟩, ⟨"./a.clj"⟩⟩
    let resolved' := (Loader.new ["clj"]).resolve airyTree ⟨⟨"."⟩, ⟨"./a.clj"⟩⟩
    ∃ found found' json json', resolved.value.1 = .ok found ∧ resolved'.value.1 = .ok found' ∧
      found.records.length = 2 ∧
      Document.recordsToJson found.records = .ok json ∧
      Document.recordsToJson found'.records = .ok json' ∧
      json.withoutEach placeKeys = json'.withoutEach placeKeys := by
  have reformatted : denseTree.Reformatted id airyTree :=
    FileTree.flat_reformatted layouts (by decide +kernel)
  refine ⟨reformatted, ?_⟩
  intro resolved resolved'
  obtain ⟨-, count⟩ := (Loader.new ["clj"]).see_load denseTree ⟨⟨"."⟩, ⟨"./a.clj"⟩⟩ "a" 20
    (fun space => space.publics.length) [⟨"./a.clj"⟩, ⟨"./b.clj"⟩] (some 2) (by decide +kernel)
  have declared : (Loader.new ["clj"]).declaredName denseTree ⟨⟨"."⟩, ⟨"./a.clj"⟩⟩ = .ok "a" :=
    eq_ok_of_toOption (by decide +kernel)
  obtain ⟨space, loaded, isTwo⟩ := exceptMap_eq_ok_iff.1 (eq_ok_of_toOption count)
  have succeeded := Loader.resolve_of_load declared loaded
  obtain ⟨-, ⟨error, error', failed, -⟩ |
      ⟨found, found', json, json', isOk, isOk', -, written, written', same⟩⟩ :=
    resolve_ignores_layout id (Loader.new ["clj"]) reformatted ⟨⟨"."⟩, ⟨"./a.clj"⟩⟩
  · cases succeeded.symm.trans failed
  · obtain rfl := Except.ok.inj (succeeded.symm.trans isOk)
    exact ⟨_, found', json, json', isOk, isOk', (List.length_map _).trans isTwo, written, written',
      same⟩

end VarDoc
