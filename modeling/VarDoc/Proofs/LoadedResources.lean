import VarDoc.Proofs.FilesReadOnce

/-! Which resources a load follows. Whatever is read is the target of a
resource that a file read before it names, and a load that succeeds has met the
target of every resource in the files it has not skipped. -/

set_option autoImplicit false

namespace VarDoc

namespace Loading

variable {loading : Loading}

theorem openFile_ne_loadNotFound {path origin : Path} {name : String} :
    loading.openFile path ≠ .error (.loadNotFound name origin) := by
  unfold openFile
  split
  · simp
  · split <;> simp

def resourcesOf (loading : Loading) (path : Path) : List String :=
  match loading.openFile path with
  | .error _ => []
  | .ok (_, forms) => forms.flatMap fun form => (loadResources? form).getD []

theorem mem_resourcesOf {path : Path} {text : String} {forms : List Form}
    (opened : loading.openFile path = .ok (text, forms)) {resource : String} :
    resource ∈ loading.resourcesOf path ↔
      ∃ form ∈ forms, ∃ names, loadResources? form = some names ∧ resource ∈ names := by
  rw [resourcesOf, opened]
  simp only [List.mem_flatMap]
  refine exists_congr fun form => and_congr_right fun _ => ?_
  cases loadResources? form <;> simp

def Stems (loading : Loading) (read : List Path) : LoadTask → Prop
  | .form origin form =>
    origin.path ∈ read ∧
      ∀ names, loadResources? form = some names → ∀ name ∈ names, name ∈ loading.resourcesOf origin.path
  | .resource origin name => origin ∈ read ∧ name ∈ loading.resourcesOf origin

theorem Stems.mono {read more : List Path} (kept : read ⊆ more) {task : LoadTask}
    (stems : loading.Stems read task) : loading.Stems more task := by
  cases task with
  | form => exact ⟨kept stems.1, stems.2⟩
  | resource => exact ⟨kept stems.1, stems.2⟩

theorem stems_tasksOf {path : Path} {isMain : Bool} {text : String} {forms : List Form}
    (opened : loading.openFile path = .ok (text, forms)) {read : List Path} (member : path ∈ read) :
    ∀ task ∈ loading.tasksOf path isMain (text, forms), loading.Stems read task := by
  intro task listed
  obtain ⟨form, inFile, rfl⟩ := List.mem_map.1 listed
  exact ⟨member, fun names loads name named =>
    (mem_resourcesOf opened).2 ⟨form, inFile, names, loads, named⟩⟩

/-- One step keeps to files that have been read, and what it reads is the
target of a resource that one of them names. -/
theorem Step.stems {state after : LoadState} {events : List Event} {read : List Path}
    (step : loading.Step state events after)
    (stems : ∀ task ∈ state.tasks, loading.Stems read task) :
    (∀ task ∈ after.tasks, loading.Stems (read ++ filesRead events) task) ∧
      ∀ target ∈ filesRead events,
        ∃ origin ∈ read, ∃ name ∈ loading.resourcesOf origin, loading.find? origin name = some target := by
  cases step with
  | declaration | definition | known =>
    exact ⟨fun task later => by simpa using stems task (List.mem_cons_of_mem _ later), by simp⟩
  | load other loads =>
    obtain ⟨member, named⟩ := stems _ List.mem_cons_self
    refine ⟨fun task listed => ?_, by simp⟩
    rcases List.mem_append.1 listed with new | later
    · obtain ⟨name, inForm, rfl⟩ := List.mem_map.1 new
      exact ⟨by simpa using member, named _ loads name inForm⟩
    · simpa using stems task (List.mem_cons_of_mem _ later)
  | skipped found new opened switches =>
    have stem := stems _ List.mem_cons_self
    refine ⟨fun task later => (stems task (List.mem_cons_of_mem _ later)).mono (by simp), ?_⟩
    simpa using ⟨_, stem.1, _, stem.2, found⟩
  | entered found new opened stays =>
    have stem := stems _ List.mem_cons_self
    refine ⟨fun task listed => ?_, by simpa using ⟨_, stem.1, _, stem.2, found⟩⟩
    rcases List.mem_append.1 listed with new | later
    · exact stems_tasksOf opened (by simp) task new
    · exact (stems task (List.mem_cons_of_mem _ later)).mono (by simp)

theorem Runs.stems {state : LoadState} {events : List Event}
    {outcome : Except LoadError (Dict Metadata)} {read : List Path}
    (runs : loading.Runs state events outcome)
    (stems : ∀ task ∈ state.tasks, loading.Stems read task)
    {before after : List Path} {target : Path}
    (reads : filesRead events = before ++ target :: after) :
    ∃ origin ∈ read ++ before, ∃ name ∈ loading.resourcesOf origin,
      loading.find? origin name = some target := by
  induction runs generalizing read before with
  | done => simp at reads
  | stuck cannot =>
    cases cannot with
    | mismatch | missing => simp at reads
    | unreadable found new failed =>
      have stem := stems _ List.mem_cons_self
      have isTarget : target ∈ before ++ target :: after := by simp
      rw [← reads, filesRead_following, filesRead_reading, filesRead_nil, List.mem_singleton] at isTarget
      exact ⟨_, List.mem_append_left _ stem.1, _, stem.2, isTarget ▸ found⟩
  | next step runs ih =>
    obtain ⟨stemsAfter, targets⟩ := step.stems stems
    rw [filesRead_append] at reads
    rcases List.append_eq_append_iff.1 reads with ⟨rest, rfl, later⟩ | ⟨rest, now, others⟩
    · obtain ⟨origin, member, found⟩ := ih stemsAfter later
      exact ⟨origin, by simpa using member, found⟩
    · cases rest with
      | nil =>
        have later : filesRead _ = [] ++ target :: after := others.symm
        obtain ⟨origin, member, found⟩ := ih stemsAfter later
        exact ⟨origin, by simpa [now] using member, found⟩
      | cons first rest =>
        obtain ⟨rfl, -⟩ := List.cons.inj others
        obtain ⟨origin, member, found⟩ := targets target (by simp [now])
        exact ⟨origin, List.mem_append_left _ member, found⟩

theorem Runs.missing {state : LoadState} {events : List Event}
    {outcome : Except LoadError (Dict Metadata)} {read : List Path}
    (runs : loading.Runs state events outcome)
    (stems : ∀ task ∈ state.tasks, loading.Stems read task) {name : String} {origin : Path}
    (failed : outcome = .error (.loadNotFound name origin)) :
    origin ∈ read ++ filesRead events ∧ name ∈ loading.resourcesOf origin ∧
      loading.find? origin name = none := by
  induction runs generalizing read with
  | done => contradiction
  | stuck cannot =>
    cases failed
    cases cannot with
    | missing absent =>
      have stem := stems _ List.mem_cons_self
      exact ⟨by simpa using stem.1, stem.2, absent⟩
    | unreadable found new failed => exact absurd failed openFile_ne_loadNotFound
  | next step runs ih => simpa using ih (step.stems stems).1 failed

/-- The resource is found, and its file has been met by the end of the run. -/
def Settled (loading : Loading) (state : LoadState) (events : List Event) (origin : Path)
    (name : String) : Prop :=
  ∃ target, loading.find? origin name = some target ∧
    (state.visited.has target = true ∨ ∃ path ∈ filesRead events, path.components = target.components)

theorem Settled.before {state after : LoadState} {events later : List Event} {origin : Path}
    {name : String} (step : loading.Step state events after)
    (settled : loading.Settled after later origin name) :
    loading.Settled state (events ++ later) origin name := by
  obtain ⟨target, found, met⟩ := settled
  refine ⟨target, found, ?_⟩
  rw [filesRead_append]
  rcases step.reads with ⟨none, same⟩ | ⟨path, one, -, grown⟩
  · rwa [none, List.nil_append, ← same]
  · rw [grown, Bool.or_eq_true, Path.same_iff] at met
    rw [one, List.singleton_append]
    rcases met with (now | earlier) | ⟨other, member, same⟩
    · exact .inr ⟨path, List.mem_cons_self, now⟩
    · exact .inl earlier
    · exact .inr ⟨other, List.mem_cons_of_mem _ member, same⟩

def TaskSettled (loading : Loading) (state : LoadState) (events : List Event) : LoadTask → Prop
  | .form origin form =>
    ∀ names, loadResources? form = some names → ∀ name ∈ names,
      loading.Settled state events origin.path name
  | .resource origin name => loading.Settled state events origin name

theorem TaskSettled.before {state after : LoadState} {events later : List Event} {task : LoadTask}
    (step : loading.Step state events after) (settled : loading.TaskSettled after later task) :
    loading.TaskSettled state (events ++ later) task := by
  cases task with
  | form => exact fun names loads name member => (settled names loads name member).before step
  | resource => exact Settled.before step settled

theorem settled_of_tasksOf {state : LoadState} {events : List Event} {path : Path} {isMain : Bool}
    {text : String} {forms : List Form} (opened : loading.openFile path = .ok (text, forms))
    (settled : ∀ task ∈ loading.tasksOf path isMain (text, forms), loading.TaskSettled state events task) :
    ∀ name ∈ loading.resourcesOf path, loading.Settled state events path name := by
  intro name member
  obtain ⟨form, inFile, names, loads, named⟩ := (mem_resourcesOf opened).1 member
  exact settled _ (List.mem_map_of_mem inFile) names loads name named

theorem loadResources?_of_declaration {form : Form} (declares : form.isCallTo "ns" = true) :
    loadResources? form = none := by
  rw [Form.isCallTo, beq_iff_eq] at declares
  simp [loadResources?, Form.isCallTo, declares]

def Joins (loading : Loading) (path : Path) : Prop :=
  ∀ text forms, loading.openFile path = .ok (text, forms) → loading.otherNamespace? forms = none

/-- A run that succeeds has settled the resources of all its tasks, and of all
the files that it reads and does not skip. -/
theorem Runs.settles {state : LoadState} {events : List Event}
    {outcome : Except LoadError (Dict Metadata)} (runs : loading.Runs state events outcome)
    (succeeded : ∃ vars, outcome = .ok vars) :
    (∀ task ∈ state.tasks, loading.TaskSettled state events task) ∧
      ∀ path ∈ filesRead events, loading.Joins path → ∀ name ∈ loading.resourcesOf path,
        loading.Settled state events path name := by
  induction runs with
  | done => simp
  | stuck => simp at succeeded
  | next step runs ih =>
    obtain ⟨tasks, files⟩ := ih succeeded
    have rest := fun task member => (tasks task member).before step
    have later := fun path member joins name named => (files path member joins name named).before step
    rw [filesRead_append]
    cases step with
    | declaration declares agrees =>
      refine ⟨List.forall_mem_cons.2 ⟨?_, rest⟩, later⟩
      intro names loads
      rw [loadResources?_of_declaration declares] at loads
      contradiction
    | definition other loadsNothing =>
      refine ⟨List.forall_mem_cons.2 ⟨?_, rest⟩, later⟩
      intro names loads
      rw [loadsNothing] at loads
      contradiction
    | load other loads =>
      refine ⟨List.forall_mem_cons.2 ⟨?_, fun task member => rest task (List.mem_append_right _ member)⟩,
        later⟩
      intro names same name member
      cases loads.symm.trans same
      exact rest _ (List.mem_append_left _ (List.mem_map_of_mem member))
    | known found met =>
      exact ⟨List.forall_mem_cons.2 ⟨⟨_, found, .inl met⟩, rest⟩, later⟩
    | skipped found new opened switches =>
      refine ⟨List.forall_mem_cons.2 ⟨⟨_, found, .inr ⟨_, by simp, rfl⟩⟩, rest⟩,
        List.forall_mem_cons.2 ⟨fun joins => ?_, later⟩⟩
      cases (joins _ _ opened).symm.trans switches
    | entered found new opened stays =>
      refine ⟨List.forall_mem_cons.2 ⟨⟨_, found, .inr ⟨_, by simp, rfl⟩⟩,
          fun task member => rest task (List.mem_append_right _ member)⟩,
        List.forall_mem_cons.2 ⟨fun _ => ?_, later⟩⟩
      exact settled_of_tasksOf opened fun task member => rest task (List.mem_append_left _ member)

theorem Runs.opens {state : LoadState} {events : List Event}
    {outcome : Except LoadError (Dict Metadata)} (runs : loading.Runs state events outcome)
    (succeeded : ∃ vars, outcome = .ok vars) :
    ∀ path ∈ filesRead events, ∃ opened, loading.openFile path = .ok opened := by
  induction runs with
  | done => simp
  | stuck => simp at succeeded
  | next step runs ih =>
    have later := ih succeeded
    rw [filesRead_append]
    cases step with
    | declaration | load | definition | known => exact later
    | skipped _ _ opened | entered _ _ opened => exact List.forall_mem_cons.2 ⟨⟨_, opened⟩, later⟩

theorem opened_of_mem_resourcesOf {path : Path} {resource : String}
    (named : resource ∈ loading.resourcesOf path) : ∃ opened, loading.openFile path = .ok opened := by
  unfold resourcesOf at named
  split at named
  · contradiction
  next opened => exact ⟨_, opened⟩

theorem load_reads_targets (loading : Loading) (path : Path) :
    ∃ later, filesRead (loading.load path).events = path :: later ∧
      ∀ before target after, later = before ++ target :: after →
        ∃ origin ∈ path :: before, ∃ resource ∈ loading.resourcesOf origin,
          loading.find? origin resource = some target := by
  rcases loading.load_cases path with
    ⟨error, -, loaded⟩ | ⟨text, forms, opened, events, outcome, runs, loaded⟩
  · rw [loaded]
    exact ⟨[], rfl, by simp⟩
  · rw [loaded, filesRead_reading]
    refine ⟨_, rfl, fun before target after reads => ?_⟩
    exact runs.stems (stems_tasksOf opened (List.mem_singleton_self path)) reads

theorem load_settles {path : Path} {vars : Dict Metadata} (succeeded : (loading.load path).value = .ok vars)
    {origin : Path} (member : origin ∈ filesRead (loading.load path).events)
    (followed : origin = path ∨ loading.Joins origin) {resource : String}
    (named : resource ∈ loading.resourcesOf origin) :
    ∃ found, loading.find? origin resource = some found ∧
      ∃ target ∈ filesRead (loading.load path).events, target.components = found.components ∧
        ∃ opened, loading.openFile target = .ok opened := by
  rcases loading.load_cases path with
    ⟨error, -, loaded⟩ | ⟨text, forms, opened, events, outcome, runs, loaded⟩
  · rw [loaded] at succeeded
    contradiction
  · rw [loaded] at succeeded
    rw [loaded, filesRead_reading] at member
    simp only [loaded, filesRead_reading]
    obtain ⟨tasks, files⟩ := runs.settles ⟨vars, succeeded⟩
    have settled : loading.Settled (loading.start path opened) events origin resource := by
      by_cases main : origin = path
      · subst main
        exact settled_of_tasksOf opened tasks resource named
      · have later := (List.mem_cons.1 member).resolve_left main
        exact files origin later (followed.resolve_left main) resource named
    obtain ⟨found, isFound, met⟩ := settled
    refine ⟨found, isFound, ?_⟩
    rcases met with main | ⟨target, read, same⟩
    · have same : (path.same found || false) = true := main
      rw [Bool.or_false, Path.same_iff] at same
      exact ⟨path, List.mem_cons_self, same, _, opened⟩
    · exact ⟨target, List.mem_cons_of_mem _ read, same, runs.opens ⟨vars, succeeded⟩ target read⟩

theorem load_missing {path origin : Path} {resource : String}
    (failed : (loading.load path).value = .error (.loadNotFound resource origin)) :
    origin ∈ filesRead (loading.load path).events ∧ resource ∈ loading.resourcesOf origin ∧
      loading.find? origin resource = none := by
  rcases loading.load_cases path with
    ⟨error, unreadable, loaded⟩ | ⟨text, forms, opened, events, outcome, runs, loaded⟩
  · rw [loaded] at failed
    rw [Except.error.inj failed] at unreadable
    exact absurd unreadable openFile_ne_loadNotFound
  · rw [loaded] at failed
    rw [loaded, filesRead_reading]
    exact runs.missing (stems_tasksOf opened (List.mem_singleton_self path)) failed

end Loading

end VarDoc
