import VarDoc.Proofs.FollowedLoads
import VarDoc.Proofs.LoaderHistory
import VarDoc.Proofs.Printing

/-! When a source file can be resolved. The file is read twice: up to its first
`ns` form for the declared name, and as a whole when it is loaded. Both must
succeed and agree, and the resources that it loads must be followed to their
end. -/

set_option autoImplicit false

namespace VarDoc

namespace Loading

variable {loading : Loading}

def Named (loading : Loading) : LoadTask → Prop
  | .form origin form =>
    origin.isMain = true → form.isCallTo "ns" = true →
      (declaredSymbol? form).getD "" = loading.space
  | .resource _ _ => True

theorem named_of_other {origin : SourceUnit} {form : Form} (other : form.isCallTo "ns" = false) :
    loading.Named (.form origin form) := by
  intro _ declares
  rw [other] at declares
  contradiction

theorem named_resources (origin : Path) (names : List String) :
    ∀ task ∈ names.map (LoadTask.resource origin), loading.Named task := by
  intro task listed
  obtain ⟨name, -, rfl⟩ := List.mem_map.1 listed
  trivial

theorem named_tasksOf (path : Path) (opened : String × List Form) :
    ∀ task ∈ loading.tasksOf path false opened, loading.Named task := by
  intro task listed
  obtain ⟨form, -, rfl⟩ := List.mem_map.1 listed
  intro isMain
  contradiction

theorem Step.named_iff {state after : LoadState} {events : List Event}
    (step : loading.Step state events after) :
    (∀ task ∈ state.tasks, loading.Named task) ↔ ∀ task ∈ after.tasks, loading.Named task := by
  cases step with
  | declaration declares agrees =>
    rw [List.forall_mem_cons]
    refine and_iff_right ?_
    intro isMain _
    simpa [isMain] using agrees
  | load other loads =>
    rw [List.forall_mem_cons, List.forall_mem_append]
    exact and_congr_left' (iff_of_true (named_of_other other) (named_resources _ _))
  | definition other loadsNothing =>
    rw [List.forall_mem_cons]
    exact and_iff_right (named_of_other other)
  | known | skipped =>
    rw [List.forall_mem_cons]
    exact and_iff_right trivial
  | entered =>
    rw [List.forall_mem_cons, List.forall_mem_append]
    exact and_congr_left' (iff_of_true trivial (named_tasksOf _ _))

/-- Where a run gets stuck, the names do not agree or the first resource cannot
be followed. -/
theorem Stuck.not_follows {state : LoadState} {events : List Event} {error : LoadError}
    (stuck : loading.Stuck state events error) (named : ∀ task ∈ state.tasks, loading.Named task)
    {sequence : List (SourceUnit × Form)} {met : List Path} :
    ¬ loading.Follows state.tasks state.visited.paths sequence met := by
  intro follows
  cases stuck with
  | mismatch declares differs =>
    rw [Bool.and_eq_true, bne_iff_ne] at differs
    exact differs.2 (named _ List.mem_cons_self differs.1 declares)
  | missing absent =>
    cases follows with
    | known found | skipped found | entered found => cases absent.symm.trans (finds_iff.1 found)
  | unreadable found new failed =>
    rw [Visited.has_eq_false_iff] at new
    have opens := (follows_resource_iff found).1 follows
    simp [new, failed] at opens

/-- A run succeeds if and only if the names agree and its tasks can be followed. -/
theorem Runs.ok_iff {state : LoadState} {events : List Event}
    {outcome : Except LoadError (Dict Metadata)} (runs : loading.Runs state events outcome) :
    (∃ vars, outcome = .ok vars) ↔ (∀ task ∈ state.tasks, loading.Named task) ∧
      ∃ sequence met, loading.Follows state.tasks state.visited.paths sequence met := by
  induction runs with
  | done => exact iff_of_true ⟨_, rfl⟩ ⟨by simp, _, _, .nothing⟩
  | stuck cannot =>
    refine iff_of_false (by simp) ?_
    rintro ⟨named, sequence, met, follows⟩
    exact cannot.not_follows named follows
  | next step runs ih =>
    obtain ⟨passed, -, -, follows_iff⟩ := step.follows
    rw [ih, step.named_iff]
    refine and_congr_right fun _ => ?_
    simp only [follows_iff]
    constructor
    · rintro ⟨later, met, follows⟩
      exact ⟨_, met, later, rfl, follows⟩
    · rintro ⟨_, met, later, -, follows⟩
      exact ⟨later, met, follows⟩

theorem load_ok_iff {path : Path} :
    (∃ vars, (loading.load path).value = .ok vars) ↔
      ∃ unit forms, loading.Reads path true unit forms ∧
        (∀ form ∈ forms, form.isCallTo "ns" = true → (declaredSymbol? form).getD "" = loading.space) ∧
        ∃ sequence met, loading.Follows (forms.map (.form unit)) [path] sequence met := by
  simp only [reads_iff]
  rcases loading.load_cases path with
    ⟨error, failed, loaded⟩ | ⟨text, forms, opened, events, outcome, runs, loaded⟩
  · rw [loaded, failed]
    simp
  · rw [loaded, runs.ok_iff]
    have named : (∀ task ∈ loading.tasksOf path true (text, forms), loading.Named task) ↔
        ∀ form ∈ forms, form.isCallTo "ns" = true →
          (declaredSymbol? form).getD "" = loading.space := by
      rw [tasksOf, List.forall_mem_map]
      exact forall₂_congr fun form _ => ⟨fun isNamed => isNamed rfl, fun isNamed _ => isNamed⟩
    simp only [start]
    rw [named]
    constructor
    · intro both
      exact ⟨_, forms, ⟨text, opened, rfl⟩, both⟩
    · rintro ⟨unit, forms', ⟨text', opened', rfl⟩, both⟩
      cases opened.symm.trans opened'
      exact both

end Loading

def NamedFirst (name : String) (forms : List Form) : Prop :=
  ∃ span metadata rest, forms = .atom (.symbol name) span metadata :: rest

theorem namedFirst_iff {form : Form} {arguments : List Form} {name : String}
    (calls : form.Calls ["ns"] arguments) :
    NamedFirst name arguments ↔ declaredSymbol? form = some name := by
  cases calls with
  | intro =>
    constructor
    · rintro ⟨span, metadata, rest, rfl⟩
      rfl
    · intro declares
      cases arguments with
      | nil => contradiction
      | cons first rest =>
        obtain ⟨span, metadata, rfl⟩ := Form.symbol?_eq_some_iff.1 declares
        exact ⟨span, metadata, rest, rfl⟩

theorem isCallTo_iff_calls {form : Form} {head : String} :
    form.isCallTo head = true ↔ ∃ arguments, form.Calls [head] arguments := by
  rw [Form.exists_calls_iff, List.any_cons, List.any_nil, Bool.or_false]

theorem declares_iff {form : Form} {name : String} :
    (form.isCallTo "ns" = true → declaredSymbol? form = some name) ↔
      ∀ arguments, form.Calls ["ns"] arguments → NamedFirst name arguments := by
  rw [isCallTo_iff_calls]
  constructor
  · intro declares arguments calls
    exact (namedFirst_iff calls).2 (declares ⟨arguments, calls⟩)
  · rintro named ⟨arguments, calls⟩
    exact (namedFirst_iff calls).1 (named arguments calls)

theorem Form.Printable.symbol?_ne_empty {form : Form} (printable : form.Printable) :
    form.symbol? ≠ some "" := by
  intro isSymbol
  obtain ⟨span, metadata, rfl⟩ := Form.symbol?_eq_some_iff.1 isSymbol
  cases printable with
  | atom leafPrintable =>
    obtain ⟨kind, spelled, -⟩ := leafPrintable
    exact spelled.ne_nil rfl

theorem declaredSymbol?_ne_empty {features : Features} {text : String} {forms : List Form}
    (read : readAll features text = .ok forms) {form : Form} (member : form ∈ forms) :
    declaredSymbol? form ≠ some "" := by
  intro declares
  obtain ⟨items, isList, inItems⟩ := Option.bind_eq_some_iff.1 declares
  obtain ⟨item, second, isSymbol⟩ := Option.bind_eq_some_iff.1 inItems
  obtain ⟨span, metadata, rfl⟩ := Form.list?_eq_some_iff.1 isList
  cases readAll_printable read _ member with
  | group itemsPrintable =>
    exact (itemsPrintable item (List.mem_of_getElem? second)).symbol?_ne_empty isSymbol

theorem declaredNameIn_eq_ok_iff {path : Path} {forms : List Form} {name : String} :
    declaredNameIn path (forms.map .ok) = .ok name ↔
      ∃ arguments, FirstCall ["ns"] arguments forms ∧ NamedFirst name arguments := by
  induction forms with
  | nil => exact iff_of_false nofun nofun
  | cons form rest ih =>
    rw [List.map_cons, declaredNameIn]
    split
    next called =>
      obtain ⟨arguments, calls⟩ := isCallTo_iff_calls.1 called
      have declared : (∃ given, FirstCall ["ns"] given (form :: rest) ∧ NamedFirst name given) ↔
          declaredSymbol? form = some name := by
        rw [← namedFirst_iff calls]
        constructor
        · rintro ⟨given, first, named⟩
          cases first with
          | here calls' => exact (namedFirst_iff calls).2 ((namedFirst_iff calls').1 named)
          | later differs => exact absurd calls (differs arguments)
        · exact fun named => ⟨arguments, .here calls, named⟩
      rw [declared]
      cases declaredSymbol? form <;> simp
    next other =>
      have differs : ∀ given, ¬ form.Calls ["ns"] given := fun given calls =>
        other (isCallTo_iff_calls.2 ⟨given, calls⟩)
      rw [ih]
      refine exists_congr fun arguments => and_congr_left fun _ => ⟨.later differs, ?_⟩
      rintro (calls | ⟨_, first⟩)
      · exact absurd calls (differs arguments)
      · exact first

theorem Loader.declaredName_eq_ok_iff {loader : Loader} {tree : FileTree} {source : SourceFile}
    {text : String} {forms : List Form} (read : tree.readText source.path = .ok text)
    (whole : readAll loader.features text = .ok forms) {name : String} :
    loader.declaredName tree source = .ok name ↔
      ∃ arguments, FirstCall ["ns"] arguments forms ∧ NamedFirst name arguments := by
  have each : readEach loader.features text = forms.map .ok :=
    (List.map_id _).symm.trans (mapM_eq_ok_iff.1 whole)
  rw [Loader.declaredName, VarDoc.declaredName, read]
  simp only [each]
  exact declaredNameIn_eq_ok_iff

theorem exists_firstCall {heads : List String} {forms : List Form} {form : Form}
    {arguments : List Form} (member : form ∈ forms) (calls : form.Calls heads arguments) :
    ∃ given, FirstCall heads given forms := by
  induction forms with
  | nil => cases member
  | cons first rest ih =>
    by_cases called : ∃ given, first.Calls heads given
    · exact called.imp fun given callsToo => .here callsToo
    · rcases List.mem_cons.1 member with rfl | later
      · exact absurd ⟨arguments, calls⟩ called
      · exact (ih later).imp fun given behind => .later (not_exists.1 called) behind

/-- A source file is resolved with a name if and only if it is readable text that
is read without error to its end, it has an `ns` form, each of its `ns` forms has
that name in second place, and its forms can be followed through all that they
load. The name that is read first, up to the first `ns` form, always agrees with
the whole file. -/
theorem resolve_succeeds_iff (loader : Loader) (tree : FileTree) (source : SourceFile) :
    (∀ name,
      let loading : Loading := ⟨tree, loader.features, source.root, name⟩
      (∃ found, (loader.resolve tree source).value.1 = .ok found ∧ found.name = name) ↔
        ∃ unit forms, loading.Reads source.path true unit forms ∧
          (∃ form ∈ forms, ∃ arguments, form.Calls ["ns"] arguments) ∧
          (∀ form ∈ forms, ∀ arguments, form.Calls ["ns"] arguments → NamedFirst name arguments) ∧
          ∃ sequence met, loading.Follows (forms.map (.form unit)) [source.path] sequence met) ∧
    ∀ text forms, tree.readText source.path = .ok text → readAll loader.features text = .ok forms →
      ∀ name, loader.declaredName tree source = .ok name ↔
        ∃ arguments, FirstCall ["ns"] arguments forms ∧ NamedFirst name arguments := by
  refine ⟨?_, fun text forms read whole name => Loader.declaredName_eq_ok_iff read whole⟩
  intro name loading
  constructor
  · rintro ⟨found, resolved, rfl⟩
    obtain ⟨space, declared, loaded, -⟩ := Loader.resolve_eq_ok_iff.1 resolved
    rw [Loader.load_value] at loaded
    obtain ⟨vars, isOk, -⟩ := exceptMap_eq_ok_iff.1 loaded
    obtain ⟨unit, forms, ⟨read, whole⟩, named, follows⟩ := Loading.load_ok_iff.1 ⟨vars, isOk⟩
    obtain ⟨given, isFirst, names⟩ := (Loader.declaredName_eq_ok_iff read whole).1 declared
    obtain ⟨first, inFile, calls⟩ := isFirst.exists_mem
    refine ⟨_, forms, .intro read whole, ⟨first, inFile, given, calls⟩, ?_, follows⟩
    intro form member
    rw [← declares_iff]
    intro declares
    have same := named form member declares
    -- An `ns` form without a name counts as one with an empty name, which no symbol has.
    cases second : declaredSymbol? form with
    | some other =>
      rw [second] at same
      exact congrArg some same
    | none =>
      rw [second] at same
      change "" = found.name at same
      rw [← same, namedFirst_iff calls] at names
      exact absurd names (declaredSymbol?_ne_empty whole inFile)
  · rintro ⟨unit, forms, ⟨read, whole⟩, ⟨form, member, arguments, calls⟩, named, follows⟩
    have declared : loader.declaredName tree source = .ok name := by
      rw [Loader.declaredName_eq_ok_iff read whole]
      obtain ⟨given, isFirst⟩ := exists_firstCall member calls
      obtain ⟨first, inFile, callsFirst⟩ := isFirst.exists_mem
      exact ⟨given, isFirst, named first inFile given callsFirst⟩
    have loads : ∃ vars, (loading.load source.path).value = .ok vars := by
      refine Loading.load_ok_iff.2 ⟨_, forms, .intro read whole, ?_, follows⟩
      intro other inFile declares
      rw [declares_iff.2 (named other inFile) declares]
      rfl
    obtain ⟨vars, isOk⟩ := loads
    have loaded : (loader.load tree source name).value.1 = .ok ⟨name, vars⟩ := by
      rw [Loader.load_value]
      exact exceptMap_eq_ok_iff.2 ⟨vars, isOk, rfl⟩
    refine ⟨⟨name, (Namespace.mk name vars).publics.map Record.normalize⟩, ?_, rfl⟩
    exact Loader.resolve_eq_ok_iff.2 ⟨⟨name, vars⟩, declared, loaded, rfl⟩

/-- Two files that load each other, one whose second `ns` form has no name, and
one that loads what is not there. -/
def declaredFiles : FileTree :=
  .flat [("a.clj", "(ns a)\n(load \"b\")\n(def x 1)\n(ns a)\n"), ("b.clj", "(load \"a\")\n"),
    ("late.clj", "(ns a)\n(def x 1)\n(ns)\n"), ("stray.clj", "(ns a)\n(load \"b\" \"gone\")\n")]

def Form.declaration (form : Form) : Bool × Option String :=
  (form.isCallTo "ns", declaredSymbol? form)

def Loading.declarations? (loading : Loading) (path : Path) : Option (List (Bool × Option String)) :=
  (loading.openFile path).toOption.map fun read => read.2.map Form.declaration

theorem Loading.reads_of_declarations? {loading : Loading} {path : Path}
    {declarations : List (Bool × Option String)}
    (seen : loading.declarations? path = some declarations) :
    ∃ unit forms, loading.Reads path true unit forms ∧ forms.map Form.declaration = declarations := by
  obtain ⟨⟨text, forms⟩, opened, rfl⟩ := Option.map_eq_some_iff.1 seen
  exact ⟨_, forms, reads_iff.2 ⟨text, eq_ok_of_toOption opened, rfl⟩, rfl⟩

/-- The first file is resolved, and following it meets the other one, which leads
back to it. The last two declare the name and are not resolved: of one the second
`ns` form is at fault, of the other only what it loads. -/
theorem missing_resource_prevents_resolution :
    let loader := Loader.new ["clj"]
    let loading : Loading := ⟨declaredFiles, ["clj"], ⟨"."⟩, "a"⟩
    let circular : SourceFile := ⟨⟨"."⟩, ⟨"./a.clj"⟩⟩
    let late : SourceFile := ⟨⟨"."⟩, ⟨"./late.clj"⟩⟩
    let stray : SourceFile := ⟨⟨"."⟩, ⟨"./stray.clj"⟩⟩
    ((∃ found, (loader.resolve declaredFiles circular).value.1 = .ok found ∧ found.name = "a") ∧
      ∃ unit forms sequence, loading.Reads circular.path true unit forms ∧
        loading.Follows (forms.map (.form unit)) [circular.path] sequence
          [⟨"./b.clj"⟩, ⟨"./a.clj"⟩]) ∧
    (loader.declaredName declaredFiles late = .ok "a" ∧
      ∀ found, (loader.resolve declaredFiles late).value.1 ≠ .ok found) ∧
    loader.declaredName declaredFiles stray = .ok "a" ∧
      (∀ found, (loader.resolve declaredFiles stray).value.1 ≠ .ok found) ∧
      (∀ path, ¬ loading.Finds stray.path "gone" path) ∧
      ∃ unit forms, loading.Reads stray.path true unit forms ∧
        ∀ sequence met, ¬ loading.Follows (forms.map (.form unit)) [stray.path] sequence met := by
  intro loader loading circular late stray
  have declared : loader.declaredName declaredFiles stray = .ok "a" :=
    eq_ok_of_toOption (by decide +kernel)
  refine ⟨?_, ⟨eq_ok_of_toOption (by decide +kernel), ?_⟩, declared, ?_⟩
  · have declared : loader.declaredName declaredFiles circular = .ok "a" :=
      eq_ok_of_toOption (by decide +kernel)
    obtain ⟨reads, vars⟩ := loader.see_load declaredFiles circular "a" 20 (fun space => space.vars.keys)
      [⟨"./a.clj"⟩, ⟨"./b.clj"⟩] (some ["x"]) (by decide +kernel)
    obtain ⟨space, loaded, -⟩ := exceptMap_eq_ok_iff.1 (eq_ok_of_toOption vars)
    refine ⟨⟨⟨"a", space.publics.map Record.normalize⟩,
      Loader.resolve_eq_ok_iff.2 ⟨space, declared, loaded, rfl⟩, rfl⟩, ?_⟩
    rw [Loader.filesRead_load] at reads
    rw [Loader.load_value] at loaded
    obtain ⟨vars, isOk, -⟩ := exceptMap_eq_ok_iff.1 loaded
    obtain ⟨unit, forms, sequence, readsFile, -, follows_iff⟩ := Loading.load_follows isOk
    exact ⟨unit, forms, sequence, readsFile,
      (follows_iff sequence _).2 ⟨rfl, (congrArg List.reverse reads).symm⟩⟩
  · intro found resolved
    obtain ⟨_, forms, ⟨read, whole⟩, -, named, -⟩ :=
      ((resolve_succeeds_iff loader declaredFiles late).1 found.name).1 ⟨found, resolved, rfl⟩
    have seen : loading.declarations? late.path =
        some [(true, some "a"), (false, some "x"), (true, none)] := by decide +kernel
    obtain ⟨_, forms', ⟨read', whole'⟩, pairs⟩ := Loading.reads_of_declarations? seen
    cases read.symm.trans read'
    cases whole.symm.trans whole'
    have unnamed : (true, none) ∈ forms.map Form.declaration := by simp [pairs]
    obtain ⟨form, member, same⟩ := List.mem_map.1 unnamed
    obtain ⟨declares, nameless⟩ := Prod.mk.inj same
    rw [declares_iff.2 (named form member) declares] at nameless
    contradiction
  · have unresolved : ∀ found, (loader.resolve declaredFiles stray).value.1 ≠ .ok found := by
      intro found resolved
      obtain ⟨space, declaredToo, loaded, -⟩ := Loader.resolve_eq_ok_iff.1 resolved
      rw [← Except.ok.inj (declared.symm.trans declaredToo)] at loaded
      obtain ⟨-, failed⟩ := loader.see_load declaredFiles stray "a" 20 (fun space => space.vars.keys)
        [⟨"./stray.clj"⟩, ⟨"./b.clj"⟩, ⟨"./a.clj"⟩] none (by decide +kernel)
      rw [loaded] at failed
      contradiction
    refine ⟨unresolved, ?_, ?_⟩
    · intro path found
      have absent : loading.find? stray.path "gone" = none := by decide +kernel
      cases absent.symm.trans (Loading.finds_iff.1 found)
    have seen : loading.declarations? stray.path = some [(true, some "a"), (false, none)] := by
      decide +kernel
    obtain ⟨unit, forms, reads, pairs⟩ := Loading.reads_of_declarations? seen
    refine ⟨unit, forms, reads, fun sequence met follows => ?_⟩
    have first : (true, some "a") ∈ forms.map Form.declaration := by simp [pairs]
    obtain ⟨form, member, same⟩ := List.mem_map.1 first
    have calls := isCallTo_iff_calls.1 (Prod.mk.inj same).1
    have named : ∀ other ∈ forms, ∀ arguments, other.Calls ["ns"] arguments →
        NamedFirst "a" arguments := by
      intro other inFile
      rw [← declares_iff]
      intro declares
      have listed : other.declaration ∈ forms.map Form.declaration := List.mem_map_of_mem inFile
      simpa [pairs, Form.declaration, declares] using listed
    obtain ⟨found, resolved, -⟩ := ((resolve_succeeds_iff loader declaredFiles stray).1 "a").2
      ⟨unit, forms, reads, ⟨form, member, calls⟩, named, sequence, met, follows⟩
    exact unresolved found resolved

end VarDoc
