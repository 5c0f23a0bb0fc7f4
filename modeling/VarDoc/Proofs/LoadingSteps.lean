import VarDoc.Namespace.Registry

/-! Loading as a run of steps. Each step does the first task of the agenda; a
run goes on until nothing is left to do or a task cannot be done. What a load
returns and what it tells in its events is what the one run from its first
state gives, so that facts about loading are proved step by step. -/

set_option autoImplicit false

namespace VarDoc

/-- The file that is being read when the event is told. -/
def Event.fileRead? (event : Event) : Option Path :=
  if event.message = "reading" then
    match lookupEntry "path" event.fields with
    | some (.plain text) => some ⟨text⟩
    | _ => none
  else none

def filesRead (events : List Event) : List Path := events.filterMap Event.fileRead?

@[simp] theorem filesRead_nil : filesRead [] = [] := rfl

@[simp] theorem filesRead_append (first second : List Event) :
    filesRead (first ++ second) = filesRead first ++ filesRead second :=
  List.filterMap_append

@[simp] theorem filesRead_reading (loading : Loading) (path : Path) (events : List Event) :
    filesRead (loading.readingEvent path :: events) = path :: filesRead events := rfl

@[simp] theorem filesRead_following (loading : Loading) (name : String) (events : List Event) :
    filesRead (loading.followingEvent name :: events) = filesRead events := rfl

@[simp] theorem filesRead_skipping (path : Path) (other : String) (events : List Event) :
    filesRead (Loading.skippingEvent path other :: events) = filesRead events := rfl

theorem Visited.has_empty (path : Path) : Visited.empty.has path = false := rfl

structure LoadState where
  visited : Visited
  vars : Dict Metadata
  tasks : List LoadTask

namespace Loading

section
variable (loading : Loading)

inductive Step : LoadState → List Event → LoadState → Prop where
  | declaration {visited : Visited} {vars : Dict Metadata} {origin : SourceUnit} {form : Form}
      {rest : List LoadTask} (declares : form.isCallTo "ns" = true)
      (agrees : (origin.isMain && (declaredSymbol? form).getD "" != loading.space) = false) :
      Step ⟨visited, vars, .form origin form :: rest⟩ [] ⟨visited, vars, rest⟩
  | load {visited : Visited} {vars : Dict Metadata} {origin : SourceUnit} {form : Form}
      {rest : List LoadTask} {names : List String} (other : form.isCallTo "ns" = false)
      (loads : loadResources? form = some names) :
      Step ⟨visited, vars, .form origin form :: rest⟩ []
        ⟨visited, vars, names.map (.resource origin.path) ++ rest⟩
  | definition {visited : Visited} {vars : Dict Metadata} {origin : SourceUnit} {form : Form}
      {rest : List LoadTask} (other : form.isCallTo "ns" = false)
      (loadsNothing : loadResources? form = none) :
      Step ⟨visited, vars, .form origin form :: rest⟩ []
        ⟨visited, vars.insertAll (Definition.ofForm origin.site form), rest⟩
  | known {visited : Visited} {vars : Dict Metadata} {origin path : Path} {name : String}
      {rest : List LoadTask} (found : loading.find? origin name = some path)
      (met : visited.has path = true) :
      Step ⟨visited, vars, .resource origin name :: rest⟩ [loading.followingEvent name]
        ⟨visited, vars, rest⟩
  | skipped {visited : Visited} {vars : Dict Metadata} {origin path : Path} {name other : String}
      {rest : List LoadTask} {text : String} {forms : List Form}
      (found : loading.find? origin name = some path) (new : visited.has path = false)
      (opened : loading.openFile path = .ok (text, forms))
      (switches : loading.otherNamespace? forms = some other) :
      Step ⟨visited, vars, .resource origin name :: rest⟩
        [loading.followingEvent name, loading.readingEvent path, skippingEvent path other]
        ⟨visited.add path new (size_lt_of_openFile opened), vars, rest⟩
  | entered {visited : Visited} {vars : Dict Metadata} {origin path : Path} {name : String}
      {rest : List LoadTask} {text : String} {forms : List Form}
      (found : loading.find? origin name = some path) (new : visited.has path = false)
      (opened : loading.openFile path = .ok (text, forms))
      (stays : loading.otherNamespace? forms = none) :
      Step ⟨visited, vars, .resource origin name :: rest⟩
        [loading.followingEvent name, loading.readingEvent path]
        ⟨visited.add path new (size_lt_of_openFile opened), vars,
          loading.tasksOf path false (text, forms) ++ rest⟩

inductive Stuck : LoadState → List Event → LoadError → Prop where
  | mismatch {visited : Visited} {vars : Dict Metadata} {origin : SourceUnit} {form : Form}
      {rest : List LoadTask} (declares : form.isCallTo "ns" = true)
      (differs : (origin.isMain && (declaredSymbol? form).getD "" != loading.space) = true) :
      Stuck ⟨visited, vars, .form origin form :: rest⟩ []
        (.nameMismatch origin.path loading.space ((declaredSymbol? form).getD ""))
  | missing {visited : Visited} {vars : Dict Metadata} {origin : Path} {name : String}
      {rest : List LoadTask} (absent : loading.find? origin name = none) :
      Stuck ⟨visited, vars, .resource origin name :: rest⟩ [] (.loadNotFound name origin)
  | unreadable {visited : Visited} {vars : Dict Metadata} {origin path : Path} {name : String}
      {rest : List LoadTask} {error : LoadError} (found : loading.find? origin name = some path)
      (new : visited.has path = false) (failed : loading.openFile path = .error error) :
      Stuck ⟨visited, vars, .resource origin name :: rest⟩
        [loading.followingEvent name, loading.readingEvent path] error

inductive Runs : LoadState → List Event → Except LoadError (Dict Metadata) → Prop where
  | done {visited : Visited} {vars : Dict Metadata} : Runs ⟨visited, vars, []⟩ [] (.ok vars)
  | stuck {state : LoadState} {events : List Event} {error : LoadError}
      (cannot : loading.Stuck state events error) : Runs state events (.error error)
  | next {state after : LoadState} {events later : List Event}
      {outcome : Except LoadError (Dict Metadata)} (step : loading.Step state events after)
      (runs : Runs after later outcome) : Runs state (events ++ later) outcome

end

variable {loading : Loading}

theorem run_runs (visited : Visited) (vars : Dict Metadata) (tasks : List LoadTask) :
    loading.Runs ⟨visited, vars, tasks⟩ (loading.run visited vars tasks).events
      (loading.run visited vars tasks).value := by
  fun_induction loading.run visited vars tasks with
  | case1 => exact .done
  | case2 _ _ origin form _ declares found differs => exact .stuck (.mismatch declares differs)
  | case3 _ _ origin form _ declares found agrees ih =>
    exact .next (.declaration declares (by simpa using agrees)) ih
  | case4 _ _ origin form _ other names loads ih =>
    exact .next (.load (by simpa using other) loads) ih
  | case5 _ _ origin form _ other loadsNothing ih =>
    exact .next (.definition (by simpa using other) loadsNothing) ih
  | case6 _ _ origin name _ absent => exact .stuck (.missing absent)
  | case7 visited vars origin name rest path found ihSkipped ihEntered ihKnown =>
    simp only [Logged.after]
    split
    next new =>
      split
      next error failed => exact .stuck (.unreadable found new failed)
      next text forms opened =>
        dsimp only
        split
        next other switches =>
          have run := Runs.next (.skipped found new opened switches) (ihSkipped new text forms opened)
          exact run
        next stays =>
          have run := Runs.next (.entered found new opened stays) (ihEntered new text forms opened)
          exact run
    next met => exact .next (.known found (by simpa using met)) ihKnown

/-- A run is what `run` computes. -/
theorem Runs.run_eq {state : LoadState} {events : List Event}
    {outcome : Except LoadError (Dict Metadata)} (runs : loading.Runs state events outcome) :
    loading.run state.visited state.vars state.tasks = ⟨events, outcome⟩ := by
  -- The arguments of a constructor are the conditions under which `run` takes its branch.
  induction runs with
  | done => rw [run]; rfl
  | stuck cannot =>
    cases cannot with
    | mismatch declares differs => rw [run, if_pos declares, if_pos differs]; rfl
    | missing absent => simp only [run, absent, Logged.pure]
    | unreadable found new failed =>
      simp only [run, found, new, dite_true]
      split
      next error failed' =>
        cases failed.symm.trans failed'
        rfl
      next opened => cases failed.symm.trans opened
  | next step runs ih =>
    cases step with
    | declaration declares agrees =>
      rw [run, if_pos declares, if_neg (by simp [agrees])]
      exact ih
    | load other loads =>
      rw [run, if_neg (by simp [other])]
      split
      next names' loads' =>
        cases loads.symm.trans loads'
        exact ih
      next loadsNothing => cases loads.symm.trans loadsNothing
    | definition other loadsNothing =>
      rw [run, if_neg (by simp [other])]
      split
      next loads => cases loadsNothing.symm.trans loads
      next => exact ih
    | known found met =>
      simp only [run, found, met, Bool.true_eq_false, dite_false]
      simp only at ih
      rw [ih]
      rfl
    | skipped found new opened switches =>
      simp only [run, found, new, dite_true]
      split
      next failed => cases opened.symm.trans failed
      next opened' =>
        cases opened.symm.trans opened'
        simp only [switches]
        simp only at ih
        rw [ih]
        rfl
    | entered found new opened stays =>
      simp only [run, found, new, dite_true]
      split
      next failed => cases opened.symm.trans failed
      next opened' =>
        cases opened.symm.trans opened'
        simp only [stays]
        simp only at ih
        rw [ih]
        rfl

def advance (loading : Loading) :
    LoadState → List Event × (LoadState ⊕ Except LoadError (Dict Metadata))
  | ⟨_, vars, []⟩ => ([], .inr (.ok vars))
  | ⟨visited, vars, .form origin form :: rest⟩ =>
    if form.isCallTo "ns" then
      let found := (declaredSymbol? form).getD ""
      if origin.isMain && found != loading.space then
        ([], .inr (.error (.nameMismatch origin.path loading.space found)))
      else ([], .inl ⟨visited, vars, rest⟩)
    else
      match loadResources? form with
      | some names => ([], .inl ⟨visited, vars, names.map (.resource origin.path) ++ rest⟩)
      | none => ([], .inl ⟨visited, vars.insertAll (Definition.ofForm origin.site form), rest⟩)
  | ⟨visited, vars, .resource origin name :: rest⟩ =>
    match loading.find? origin name with
    | none => ([], .inr (.error (.loadNotFound name origin)))
    | some path =>
      if new : visited.has path = false then
        match succeeded : loading.openFile path with
        | .error error =>
          ([loading.followingEvent name, loading.readingEvent path], .inr (.error error))
        | .ok opened =>
          let grown := visited.add path new (size_lt_of_openFile succeeded)
          match loading.otherNamespace? opened.2 with
          | some other =>
            ([loading.followingEvent name, loading.readingEvent path, skippingEvent path other],
              .inl ⟨grown, vars, rest⟩)
          | none =>
            ([loading.followingEvent name, loading.readingEvent path],
              .inl ⟨grown, vars, loading.tasksOf path false opened ++ rest⟩)
      else ([loading.followingEvent name], .inl ⟨visited, vars, rest⟩)

theorem step_of_advance {state after : LoadState} {events : List Event}
    (advanced : loading.advance state = (events, .inl after)) : loading.Step state events after := by
  unfold advance at advanced
  split at advanced
  · cases advanced
  · split at advanced
    next declares =>
      dsimp only at advanced
      split at advanced
      · cases advanced
      next agrees =>
        cases advanced
        exact .declaration declares (by simpa using agrees)
    next other =>
      split at advanced
      next loads =>
        cases advanced
        exact .load (by simpa using other) loads
      next loadsNothing =>
        cases advanced
        exact .definition (by simpa using other) loadsNothing
  · split at advanced
    · cases advanced
    next found =>
      split at advanced
      next new =>
        split at advanced
        · cases advanced
        next opened =>
          dsimp only at advanced
          split at advanced
          next switches =>
            cases advanced
            exact .skipped found new opened switches
          next stays =>
            cases advanced
            exact .entered found new opened stays
      next met =>
        cases advanced
        exact .known found (by simpa using met)

theorem runs_of_advance {state : LoadState} {events : List Event}
    {outcome : Except LoadError (Dict Metadata)}
    (advanced : loading.advance state = (events, .inr outcome)) :
    loading.Runs state events outcome := by
  unfold advance at advanced
  split at advanced
  · cases advanced
    exact .done
  · split at advanced
    next declares =>
      dsimp only at advanced
      split at advanced
      next differs =>
        cases advanced
        exact .stuck (.mismatch declares differs)
      · cases advanced
    · split at advanced <;> cases advanced
  · split at advanced
    next absent =>
      cases advanced
      exact .stuck (.missing absent)
    next found =>
      split at advanced
      next new =>
        split at advanced
        next failed =>
          cases advanced
          exact .stuck (.unreadable found new failed)
        · dsimp only at advanced
          split at advanced <;> cases advanced
      · cases advanced

def runWithin (loading : Loading) : Nat → LoadState → Option (Logged (Except LoadError (Dict Metadata)))
  | 0, _ => none
  | steps + 1, state =>
    match loading.advance state with
    | (events, .inr outcome) => some ⟨events, outcome⟩
    | (events, .inl after) => (loading.runWithin steps after).map (Logged.after events)

theorem runs_of_runWithin {steps : Nat} {state : LoadState}
    {ended : Logged (Except LoadError (Dict Metadata))}
    (ran : loading.runWithin steps state = some ended) :
    loading.Runs state ended.events ended.value := by
  induction steps generalizing state ended with
  | zero => contradiction
  | succ steps ih =>
    rw [runWithin] at ran
    split at ran
    next events outcome advanced =>
      cases ran
      exact runs_of_advance advanced
    next events after advanced =>
      obtain ⟨rest, ranOn, rfl⟩ := Option.map_eq_some_iff.1 ran
      exact .next (step_of_advance advanced) (ih ranOn)

def start (loading : Loading) (path : Path) {opened : String × List Form}
    (succeeded : loading.openFile path = .ok opened) : LoadState :=
  ⟨Visited.empty.add path (Visited.has_empty path) (size_lt_of_openFile succeeded), ∅,
    loading.tasksOf path true opened⟩

/-- A load reads the main file. If that succeeds, the rest is a run. -/
theorem load_cases (loading : Loading) (path : Path) :
    (∃ error, loading.openFile path = .error error ∧
      loading.load path = ⟨[loading.readingEvent path], .error error⟩) ∨
    ∃ text forms, ∃ opened : loading.openFile path = .ok (text, forms), ∃ events outcome,
      loading.Runs (loading.start path opened) events outcome ∧
      loading.load path = ⟨loading.readingEvent path :: events, outcome⟩ := by
  rw [load]
  split
  next error failed => exact .inl ⟨error, failed, rfl⟩
  next text forms opened => exact .inr ⟨text, forms, opened, _, _, run_runs _ _ _, rfl⟩

def loadWithin (loading : Loading) (steps : Nat) (path : Path) :
    Option (Logged (Except LoadError (Dict Metadata))) :=
  match opened : loading.openFile path with
  | .error error => some ⟨[loading.readingEvent path], .error error⟩
  | .ok (_, _) =>
    (loading.runWithin steps (loading.start path opened)).map (Logged.after [loading.readingEvent path])

theorem loadWithin_error {path : Path} {error : LoadError} (steps : Nat)
    (failed : loading.openFile path = .error error) :
    loading.loadWithin steps path = some ⟨[loading.readingEvent path], .error error⟩ := by
  unfold loadWithin
  split
  next found =>
    cases failed.symm.trans found
    rfl
  next opened => cases failed.symm.trans opened

theorem loadWithin_ok {path : Path} {text : String} {forms : List Form} (steps : Nat)
    (opened : loading.openFile path = .ok (text, forms)) :
    loading.loadWithin steps path =
      (loading.runWithin steps (loading.start path opened)).map
        (Logged.after [loading.readingEvent path]) := by
  unfold loadWithin
  split
  next failed => cases opened.symm.trans failed
  next found =>
    cases opened.symm.trans found
    rfl

theorem load_of_loadWithin {steps : Nat} {path : Path}
    {ended : Logged (Except LoadError (Dict Metadata))}
    (ran : loading.loadWithin steps path = some ended) : loading.load path = ended := by
  rcases loading.load_cases path with
    ⟨error, failed, loaded⟩ | ⟨text, forms, opened, events, outcome, runs, loaded⟩
  · rw [loadWithin_error steps failed] at ran
    rw [loaded]
    exact Option.some.inj ran
  · rw [loadWithin_ok steps opened] at ran
    obtain ⟨rest, ranOn, rfl⟩ := Option.map_eq_some_iff.1 ran
    obtain ⟨rfl, rfl⟩ := Logged.mk.inj ((runs_of_runWithin ranOn).run_eq.symm.trans runs.run_eq)
    exact loaded

theorem see_load {α : Type} (loading : Loading) (steps : Nat) (path : Path)
    (see : Logged (Except LoadError (Dict Metadata)) → α) (seen : α)
    (ran : (loading.loadWithin steps path).map see = some seen) : see (loading.load path) = seen := by
  obtain ⟨ended, within, rfl⟩ := Option.map_eq_some_iff.1 ran
  rw [load_of_loadWithin within]

end Loading

namespace Loader

theorem filesRead_load (loader : Loader) (tree : FileTree) (source : SourceFile) (name : String) :
    filesRead (loader.load tree source name).events =
      filesRead (Loading.load ⟨tree, loader.features, source.root, name⟩ source.path).events := by
  rw [load]
  dsimp only
  split
  · rfl
  · rw [filesRead_append]
    split <;> exact List.append_nil _

theorem load_value (loader : Loader) (tree : FileTree) (source : SourceFile) (name : String) :
    (loader.load tree source name).value.1 =
      (Loading.load ⟨tree, loader.features, source.root, name⟩ source.path).value.map (.mk name) := by
  rw [load]
  dsimp only
  split
  next failed => rw [failed]; rfl
  next loaded => rw [loaded]; rfl

theorem see_load {α : Type} (loader : Loader) (tree : FileTree) (source : SourceFile) (name : String)
    (steps : Nat) (see : Namespace → α) (read : List Path) (seen : Option α)
    (ran : (Loading.loadWithin ⟨tree, loader.features, source.root, name⟩ steps source.path).map
      (fun ended => (filesRead ended.events, ((ended.value.map (.mk name)).map see).toOption)) =
        some (read, seen)) :
    filesRead (loader.load tree source name).events = read ∧
      ((loader.load tree source name).value.1.map see).toOption = seen := by
  rw [filesRead_load, load_value]
  exact Prod.mk.inj (Loading.see_load _ steps source.path _ _ ran)

end Loader

end VarDoc
