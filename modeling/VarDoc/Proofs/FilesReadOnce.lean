import VarDoc.Proofs.LoadingSteps

/-! Which files a load reads twice. A path is never read under a second
spelling with the same components, so that loads in a circle come to an end.
A spelling with other components counts as another file, even where it leads
to the same entry of the tree. -/

set_option autoImplicit false

namespace VarDoc

def FileTree.SameEntry (tree : FileTree) (first second : Path) : Prop :=
  ∃ entry, tree.resolve first = .ok entry ∧ tree.resolve second = .ok entry

theorem Path.same_iff {left right : Path} :
    left.same right = true ↔ left.components = right.components := by
  rw [same, beq_iff_eq]

namespace Loading

variable {loading : Loading}

/-- What one step reads counts as met afterwards, and had not been met. -/
theorem Step.reads {state after : LoadState} {events : List Event}
    (step : loading.Step state events after) :
    (filesRead events = [] ∧ after.visited = state.visited) ∨
      ∃ path, filesRead events = [path] ∧ state.visited.has path = false ∧
        ∀ other, after.visited.has other = (path.same other || state.visited.has other) := by
  cases step with
  | declaration | load | definition | known => exact .inl ⟨rfl, rfl⟩
  | skipped _ new | entered _ new => exact .inr ⟨_, rfl, new, fun _ => rfl⟩

theorem Stuck.reads {state : LoadState} {events : List Event} {error : LoadError}
    (stuck : loading.Stuck state events error) :
    filesRead events = [] ∨ ∃ path, filesRead events = [path] ∧ state.visited.has path = false := by
  cases stuck with
  | mismatch | missing => exact .inl rfl
  | unreadable _ new => exact .inr ⟨_, rfl, new⟩

/-- A run reads no path that it has met, and none twice. -/
theorem Runs.reads_new {state : LoadState} {events : List Event}
    {outcome : Except LoadError (Dict Metadata)} (runs : loading.Runs state events outcome) :
    (∀ path ∈ filesRead events, state.visited.has path = false) ∧
      (filesRead events).Pairwise fun earlier later => earlier.components ≠ later.components := by
  induction runs with
  | done => simp
  | stuck cannot =>
    rcases cannot.reads with none | ⟨path, one, new⟩
    · simp [none]
    · simp [one, new]
  | next step runs ih =>
    obtain ⟨unmet, distinct⟩ := ih
    rw [filesRead_append]
    rcases step.reads with ⟨none, same⟩ | ⟨path, one, new, grown⟩
    · rw [none, List.nil_append, ← same]
      exact ⟨unmet, distinct⟩
    · rw [one, List.singleton_append]
      simp only [grown, Bool.or_eq_false_iff] at unmet
      refine ⟨List.forall_mem_cons.2 ⟨new, fun other member => (unmet other member).2⟩,
        List.pairwise_cons.2 ⟨fun other member alike => ?_, distinct⟩⟩
      have different := (unmet other member).1
      rw [Path.same_iff.2 alike] at different
      contradiction

theorem load_reads_distinct (loading : Loading) (path : Path) :
    (filesRead (loading.load path).events).Pairwise fun earlier later =>
      earlier.components ≠ later.components := by
  rcases loading.load_cases path with
    ⟨error, -, loaded⟩ | ⟨text, forms, opened, events, outcome, runs, loaded⟩
  · rw [loaded]
    exact List.pairwise_singleton _ _
  · rw [loaded, filesRead_reading]
    obtain ⟨unmet, distinct⟩ := runs.reads_new
    refine List.pairwise_cons.2 ⟨fun other member alike => ?_, distinct⟩
    have different : (path.same other || false) = false := unmet other member
    rw [Path.same_iff.2 alike] at different
    contradiction

end Loading

/-- No load reads two paths with the same components. -/
theorem load_reads_no_spelling_twice (loader : Loader) (tree : FileTree) (source : SourceFile)
    (name : String) :
    (filesRead (loader.load tree source name).events).Pairwise fun earlier later =>
      earlier.components ≠ later.components := by
  rw [Loader.filesRead_load]
  exact Loading.load_reads_distinct _ source.path

def recordedFiles (space : Namespace) : List (Option String) :=
  space.publics.map fun metadata => (Record.normalize metadata).text? "file"

/-- Two files, of which the first loads the second under two spellings. -/
def respellingTree : FileTree where
  root := .directory
    [("a.clj", .file "(ns a)\n(load \"b\")\n(def x 1)\n(load \"./b\")\n".toUTF8),
      ("b.clj", .file "(def x 2)\n".toUTF8)]
  workingDirectory := []

/-- The second file is read twice, and its definition of `x` takes the place of
the one in the first file. -/
theorem respelled_file_read_twice :
    let loaded := (Loader.new ["clj"]).load respellingTree ⟨⟨""⟩, ⟨"a.clj"⟩⟩ "a"
    filesRead loaded.events = [⟨"a.clj"⟩, ⟨"b.clj"⟩, ⟨"./b.clj"⟩] ∧
      respellingTree.SameEntry ⟨"b.clj"⟩ ⟨"./b.clj"⟩ ∧
      (loaded.value.1.map recordedFiles).toOption = some [some "b.clj"] := by
  obtain ⟨reads, files⟩ := (Loader.new ["clj"]).see_load respellingTree ⟨⟨""⟩, ⟨"a.clj"⟩⟩ "a" 20
    recordedFiles [⟨"a.clj"⟩, ⟨"b.clj"⟩, ⟨"./b.clj"⟩] (some [some "b.clj"]) (by decide +kernel)
  exact ⟨reads, ⟨["b.clj"], rfl, rfl⟩, files⟩

end VarDoc
