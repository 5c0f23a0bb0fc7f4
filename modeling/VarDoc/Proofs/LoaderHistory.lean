import VarDoc.Proofs.Dict
import VarDoc.Proofs.LoadingSteps
import VarDoc.Proofs.ReformattedFiles
import VarDoc.Proofs.Traversal

/-! What a loader keeps over time. A history is a list of things done with one
loader, with changes of the files in between. What an action answers never
depends on what was loaded before. An action that fails leaves the registry as
it was, and one that loads a namespace replaces its entry by what a new loader
would build from the files of that moment. -/

set_option autoImplicit false

namespace VarDoc

namespace Loader

def keep (loader : Loader) : Option Namespace → Loader
  | none => loader
  | some space => { loader with registry := loader.registry.insert space.name space }

@[simp] theorem features_new (features : Features) : (new features).features = features := rfl

@[simp] theorem features_keep (loader : Loader) (built : Option Namespace) :
    (loader.keep built).features = loader.features := by
  cases built <;> rfl

theorem namespace?_keep (loader : Loader) (space : Namespace) (name : String) :
    (loader.keep (some space)).namespace? name =
      if name = space.name then some space else loader.namespace? name := by
  simp only [namespace?, keep, Dict.get?_insert, eq_comm]

theorem name_of_load {loader : Loader} {tree : FileTree} {source : SourceFile} {name : String}
    {space : Namespace} (loaded : (loader.load tree source name).value.1 = .ok space) :
    space.name = name := by
  rw [load_value] at loaded
  obtain ⟨vars, -, rfl⟩ := exceptMap_eq_ok_iff.1 loaded
  rfl

theorem load_answer (loader : Loader) (tree : FileTree) (source : SourceFile) (name : String) :
    (loader.load tree source name).value.1 = ((new loader.features).load tree source name).value.1 := by
  rw [load_value, load_value, features_new]

theorem load_loader (loader : Loader) (tree : FileTree) (source : SourceFile) (name : String) :
    (loader.load tree source name).value.2 =
      loader.keep ((new loader.features).load tree source name).value.1.toOption := by
  rw [load_value, features_new]
  cases loaded : (Loading.load ⟨tree, loader.features, source.root, name⟩ source.path).value <;>
    simp only [load, loaded, keep, Except.map, Except.toOption]

theorem declaredName_new (loader : Loader) (tree : FileTree) (source : SourceFile) :
    (new loader.features).declaredName tree source = loader.declaredName tree source := rfl

theorem resolve_declared (loader : Loader) (tree : FileTree) (source : SourceFile) {name : String}
    (declared : loader.declaredName tree source = .ok name) :
    (loader.resolve tree source).value =
      ((loader.load tree source name).value.1.map fun space =>
          ⟨name, space.publics.map Record.normalize⟩,
        (loader.load tree source name).value.2) := by
  unfold resolve
  rw [declared]
  cases loaded : loader.load tree source name with
  | mk events value =>
    obtain ⟨result, updated⟩ := value
    cases result <;> simp [Logged.after, Logged.bind, Logged.pure, Except.map, loaded]

theorem resolve_undeclared (loader : Loader) (tree : FileTree) (source : SourceFile)
    {error : LoadError} (failed : loader.declaredName tree source = .error error) :
    (loader.resolve tree source).value = (.error error, loader) := by
  unfold resolve
  rw [failed]

theorem resolve_answer (loader : Loader) (tree : FileTree) (source : SourceFile) :
    (loader.resolve tree source).value.1 = ((new loader.features).resolve tree source).value.1 := by
  cases declared : loader.declaredName tree source with
  | error error =>
    rw [resolve_undeclared _ _ _ declared,
      resolve_undeclared _ _ _ ((declaredName_new loader tree source).trans declared)]
  | ok name =>
    rw [resolve_declared _ _ _ declared,
      resolve_declared _ _ _ ((declaredName_new loader tree source).trans declared)]
    simp only [load_answer loader]

theorem resolve_eq_ok_iff {loader : Loader} {tree : FileTree} {source : SourceFile}
    {found : Module} :
    (loader.resolve tree source).value.1 = .ok found ↔ ∃ space,
      loader.declaredName tree source = .ok found.name ∧
      (loader.load tree source found.name).value.1 = .ok space ∧
      found.records = space.publics.map Record.normalize := by
  constructor
  · intro succeeded
    cases declared : loader.declaredName tree source with
    | error error =>
      rw [resolve_undeclared _ _ _ declared] at succeeded
      contradiction
    | ok name =>
      rw [resolve_declared _ _ _ declared] at succeeded
      obtain ⟨space, loaded, rfl⟩ := exceptMap_eq_ok_iff.1 succeeded
      exact ⟨space, rfl, loaded, rfl⟩
  · rintro ⟨space, declared, loaded, records⟩
    rw [resolve_declared _ _ _ declared]
    refine exceptMap_eq_ok_iff.2 ⟨space, loaded, ?_⟩
    rw [← records]

end Loader

/-- Something done with a loader, or a change of the files into what any writing
and removing may leave. -/
inductive LoaderAction where
  | declaredName (source : SourceFile)
  | load (source : SourceFile) (name : String)
  | resolve (source : SourceFile)
  | change (files : FileTree)

inductive LoaderAnswer where
  | failed (error : LoadError)
  | declared (name : String)
  | loaded (space : Namespace)
  | resolved (found : Loader.Module)
  | changed

def LoaderAnswer.of {α : Type} (succeeded : α → LoaderAnswer) : Except LoadError α → LoaderAnswer
  | .error error => .failed error
  | .ok made => succeeded made

structure Workspace where
  files : FileTree
  loader : Loader

namespace Workspace

def act (workspace : Workspace) : LoaderAction → LoaderAnswer × Workspace
  | .declaredName source =>
    (.of .declared (workspace.loader.declaredName workspace.files source), workspace)
  | .load source name =>
    let done := (workspace.loader.load workspace.files source name).value
    (.of .loaded done.1, { workspace with loader := done.2 })
  | .resolve source =>
    let done := (workspace.loader.resolve workspace.files source).value
    (.of .resolved done.1, { workspace with loader := done.2 })
  | .change files => (.changed, { workspace with files })

def run (workspace : Workspace) (history : List LoaderAction) : Workspace :=
  history.foldl (fun current action => (current.act action).2) workspace

end Workspace

namespace LoaderAction

def filesAfter (files : FileTree) : LoaderAction → FileTree
  | .change changed => changed
  | _ => files

def built? (features : Features) (files : FileTree) : LoaderAction → Option Namespace
  | .load source name => ((Loader.new features).load files source name).value.1.toOption
  | .resolve source =>
    ((Loader.new features).declaredName files source).toOption.bind fun name =>
      ((Loader.new features).load files source name).value.1.toOption
  | .declaredName _ => none
  | .change _ => none

end LoaderAction

/-- The actions of a history, each with the files that it finds. -/
def timeline (files : FileTree) : List LoaderAction → List (FileTree × LoaderAction)
  | [] => []
  | action :: rest => (files, action) :: timeline (action.filesAfter files) rest

namespace Workspace

theorem act_files (workspace : Workspace) (action : LoaderAction) :
    (workspace.act action).2.files = action.filesAfter workspace.files := by
  cases action <;> rfl

theorem act_answer (workspace : Workspace) (action : LoaderAction) :
    (workspace.act action).1 =
      (act ⟨workspace.files, .new workspace.loader.features⟩ action).1 := by
  cases action with
  | declaredName source => rfl
  | load source name => exact congrArg (LoaderAnswer.of .loaded) (workspace.loader.load_answer ..)
  | resolve source => exact congrArg (LoaderAnswer.of .resolved) (workspace.loader.resolve_answer ..)
  | change files => rfl

/-- An action changes the loader by what a new loader would build, and in no
other way. -/
theorem act_loader (workspace : Workspace) (action : LoaderAction) :
    (workspace.act action).2.loader =
      workspace.loader.keep (action.built? workspace.loader.features workspace.files) := by
  cases action with
  | declaredName source => rfl
  | load source name => exact workspace.loader.load_loader ..
  | resolve source =>
    simp only [act, LoaderAction.built?, Loader.declaredName_new]
    cases declared : workspace.loader.declaredName workspace.files source with
    | error error => rw [Loader.resolve_undeclared _ _ _ declared]; rfl
    | ok name =>
      rw [Loader.resolve_declared _ _ _ declared]
      exact workspace.loader.load_loader ..
  | change files => rfl

theorem built?_of_failed {workspace : Workspace} {action : LoaderAction} {error : LoadError}
    (failed : (workspace.act action).1 = .failed error) :
    action.built? workspace.loader.features workspace.files = none := by
  rw [act_answer] at failed
  rw [Option.eq_none_iff_forall_ne_some]
  intro space built
  cases action with
  | declaredName source => contradiction
  | change files => contradiction
  | load source name =>
    have loaded := eq_ok_of_toOption built
    simp only [act, loaded] at failed
    contradiction
  | resolve source =>
    obtain ⟨name, declared, built⟩ := Option.bind_eq_some_iff.1 built
    have loaded := eq_ok_of_toOption built
    rw [act, Loader.resolve_declared _ _ _ (eq_ok_of_toOption declared), loaded] at failed
    contradiction

theorem features_run (workspace : Workspace) (history : List LoaderAction) :
    (workspace.run history).loader.features = workspace.loader.features := by
  induction history generalizing workspace with
  | nil => rfl
  | cons action rest ih =>
    have first : (workspace.act action).2.loader.features = workspace.loader.features := by
      rw [act_loader, Loader.features_keep]
    exact (ih _).trans first

end Workspace

def LoaderAction.entry (features : Features) (moment : FileTree × LoaderAction) :
    Option (String × Namespace) :=
  (moment.2.built? features moment.1).map fun space => (space.name, space)

/-- The registry after a run holds what was built in its course, on top of what
it held before. -/
theorem Workspace.registry_run (workspace : Workspace) (history : List LoaderAction) :
    (workspace.run history).loader.registry =
      workspace.loader.registry.insertAll
        ((timeline workspace.files history).filterMap
          (LoaderAction.entry workspace.loader.features)) := by
  induction history generalizing workspace with
  | nil => rfl
  | cons action rest ih =>
    have later := ih (workspace.act action).2
    rw [act_files, act_loader, Loader.features_keep] at later
    refine later.trans ?_
    simp only [timeline, List.filterMap_cons, LoaderAction.entry]
    cases action.built? workspace.loader.features workspace.files with
    | none => rfl
    | some space => rfl

/-- The registry is atomic over every history of a loader. An action that fails
leaves it as it was, and so does asking for a declared name or a change of the
files. A load or a resolution answers what a new loader would answer; if it
succeeds, the entry of its namespace becomes what the new loader builds from the
files of that moment, and the others stay. So the registry holds, under each
name, the last namespace of that name that was built, and nothing else. -/
theorem registry_holds_last_built (features : Features) (files : FileTree)
    (history : List LoaderAction) :
    let fresh := Loader.new features
    let current := Workspace.run ⟨files, fresh⟩ history
    (∀ action error, (current.act action).1 = .failed error →
      (current.act action).2.loader = current.loader) ∧
    (∀ source, (current.act (.declaredName source)).2.loader = current.loader) ∧
    (∀ changed, (current.act (.change changed)).2.loader = current.loader) ∧
    (∀ source name, let done := current.act (.load source name)
      let expected := (fresh.load current.files source name).value.1
      done.1 = .of .loaded expected ∧
      ∀ space, expected = .ok space → ∀ other, done.2.loader.namespace? other =
        if other = name then some space else current.loader.namespace? other) ∧
    (∀ source, let done := current.act (.resolve source)
      let expected := (fresh.resolve current.files source).value.1
      done.1 = .of .resolved expected ∧
      ∀ found, expected = .ok found →
        ∃ space, (fresh.load current.files source found.name).value.1 = .ok space ∧
          ∀ other, done.2.loader.namespace? other =
            if other = found.name then some space else current.loader.namespace? other) ∧
    ∀ name space, current.loader.namespace? name = some space ↔
      ∃ earlier moment later, timeline files history = earlier ++ moment :: later ∧
        moment.2.built? features moment.1 = some space ∧ space.name = name ∧
        ∀ next ∈ later, ∀ other, next.2.built? features next.1 = some other → other.name ≠ name := by
  intro fresh current
  have sameFeatures : current.loader.features = features := Workspace.features_run ..
  have answers (action : LoaderAction) :
      (current.act action).1 = (Workspace.act ⟨current.files, fresh⟩ action).1 := by
    rw [current.act_answer, sameFeatures]
  have entries (action : LoaderAction) {space : Namespace}
      (built : action.built? features current.files = some space) (other : String) :
      (current.act action).2.loader.namespace? other =
        if other = space.name then some space else current.loader.namespace? other := by
    rw [current.act_loader, sameFeatures, built, Loader.namespace?_keep]
  refine ⟨?_, fun _ => rfl, fun _ => rfl, ?_, ?_, ?_⟩
  · intro action error failed
    rw [current.act_loader, Workspace.built?_of_failed failed]
    rfl
  · intro source name done expected
    refine ⟨answers _, ?_⟩
    intro space loaded
    rw [← Loader.name_of_load loaded]
    exact entries (.load source name) (congrArg Except.toOption loaded)
  · intro source done expected
    refine ⟨answers _, ?_⟩
    intro found resolved
    obtain ⟨space, declared, loaded, -⟩ := Loader.resolve_eq_ok_iff.1 resolved
    refine ⟨space, loaded, ?_⟩
    rw [← Loader.name_of_load loaded]
    have built : (LoaderAction.resolve source).built? features current.files = some space := by
      simp only [LoaderAction.built?]
      rw [declared]
      exact congrArg Except.toOption loaded
    exact entries _ built
  · intro name space
    have registry : current.loader.registry =
        (∅ : Dict Namespace).insertAll ((timeline files history).filterMap (LoaderAction.entry features)) :=
      Workspace.registry_run ..
    unfold Loader.namespace?
    rw [registry, Dict.get?_written_iff]
    constructor
    · rintro ⟨earlier, moment, later, split, writes, last⟩
      obtain ⟨_, built, same⟩ := Option.map_eq_some_iff.1 writes
      obtain ⟨rfl, rfl⟩ := Prod.mk.inj same
      refine ⟨earlier, moment, later, split, built, rfl, ?_⟩
      intro next member other builtToo sameName
      exact last next member other (Option.map_eq_some_iff.2 ⟨other, builtToo, by rw [sameName]⟩)
    · rintro ⟨earlier, moment, later, split, built, rfl, last⟩
      refine ⟨earlier, moment, later, split, Option.map_eq_some_iff.2 ⟨space, built, rfl⟩, ?_⟩
      intro next member other writes
      obtain ⟨_, builtToo, same⟩ := Option.map_eq_some_iff.1 writes
      obtain ⟨sameName, rfl⟩ := Prod.mk.inj same
      exact last next member _ builtToo sameName

def wholeFiles : FileTree :=
  .flat [("a.clj", "(ns a)\n(load \"b\")\n(def x 1)\n"), ("b.clj", "(def y 1)\n")]

def brokenFiles : FileTree :=
  .flat [("a.clj", "(ns a)\n(def z 1)\n(load \"b\")\n"), ("b.clj", "(def y 1)\n(def")]

/-- A reload that fails after it has met `z` leaves the vars loaded before. -/
theorem failed_reload_keeps_registry :
    let source : SourceFile := ⟨⟨"."⟩, ⟨"./a.clj"⟩⟩
    let current := Workspace.run ⟨wholeFiles, .new ["clj"]⟩ [.load source "a", .change brokenFiles]
    let done := current.act (.load source "a")
    (∃ error, done.1 = .failed error) ∧ done.2.loader = current.loader ∧
      ∃ space, done.2.loader.namespace? "a" = some space ∧ space.vars.keys = ["x", "y"] := by
  intro source current done
  obtain ⟨-, vars⟩ := (Loader.new ["clj"]).see_load wholeFiles source "a" 20
    (fun space => space.vars.keys) [⟨"./a.clj"⟩, ⟨"./b.clj"⟩] (some ["x", "y"]) (by decide +kernel)
  obtain ⟨-, fails⟩ := (Loader.new ["clj"]).see_load brokenFiles source "a" 20
    (fun space => space.vars.keys) [⟨"./a.clj"⟩, ⟨"./b.clj"⟩] none (by decide +kernel)
  obtain ⟨space, loaded, keys⟩ := exceptMap_eq_ok_iff.1 (eq_ok_of_toOption vars)
  obtain ⟨kept, -, -, loads, -, holds⟩ := registry_holds_last_built ["clj"] wholeFiles
    [.load source "a", .change brokenFiles]
  have failed : ∃ error, done.1 = .failed error := by
    rw [(loads source "a").1]
    change ∃ error, LoaderAnswer.of .loaded
      ((Loader.new ["clj"]).load brokenFiles source "a").value.1 = .failed error
    cases outcome : ((Loader.new ["clj"]).load brokenFiles source "a").value.1 with
    | error error => exact ⟨error, rfl⟩
    | ok space => rw [outcome] at fails; contradiction
  obtain ⟨error, isFailed⟩ := failed
  have same : done.2.loader = current.loader := kept _ error isFailed
  refine ⟨⟨error, isFailed⟩, same, space, ?_, keys⟩
  rw [same]
  refine (holds "a" space).2 ⟨[], (wholeFiles, .load source "a"), [(wholeFiles, .change brokenFiles)],
    rfl, congrArg Except.toOption loaded, Loader.name_of_load loaded, ?_⟩
  intro next member other built
  obtain rfl := List.mem_singleton.1 member
  contradiction

end VarDoc
