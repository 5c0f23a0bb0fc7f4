import Mathlib.Data.List.Perm.Subperm
import VarDoc.Proofs.LoadResolution
import VarDoc.Proofs.PlainPaths

/-! Loading where all paths are plain. A load that starts from plain paths and
meets plain resources only ever looks at plain paths, so that the paths it has
met are as good as the entries they lead to: no entry is read twice, and the
number of reads is bounded by the number of files. -/

set_option autoImplicit false

namespace VarDoc

def LoadTask.Plain : LoadTask → Prop
  | .form origin pending =>
    origin.path.Plain ∧
      ∀ names, loadResources? pending = some names → ∀ name ∈ names, (resourcePath name).Plain
  | .resource origin name => origin.Plain ∧ (resourcePath name).Plain

namespace Loading

variable {loading : Loading}

def PlainResources (loading : Loading) (path : Path) : Prop :=
  ∀ resource ∈ loading.resourcesOf path, (resourcePath resource).Plain

theorem find?_plain (plainRoot : loading.root.Plain) {origin target : Path} {name : String}
    (plain : LoadTask.Plain (.resource origin name)) (found : loading.find? origin name = some target) :
    target.Plain := by
  have base : (loading.lookupBase origin name).Plain := by
    unfold lookupBase
    split
    · exact plainRoot
    · cases isParent : origin.parent? with
      | none => exact plainRoot
      | some parent => exact plain.1.parent isParent
  have member := List.mem_of_find?_eq_some found
  rw [candidates_eq, List.mem_cons, List.mem_singleton] at member
  rcases member with rfl | rfl
  · exact base.join (plain.2.extend (by decide) (by decide))
  · exact base.join (plain.2.extend (by decide) (by decide))

theorem plain_tasksOf {path : Path} (plain : path.Plain) (resources : loading.PlainResources path)
    {isMain : Bool} {text : String} {forms : List Form}
    (opened : loading.openFile path = .ok (text, forms)) :
    ∀ task ∈ loading.tasksOf path isMain (text, forms), task.Plain := by
  intro task member
  obtain ⟨form, inFile, rfl⟩ := List.mem_map.1 member
  exact ⟨plain, fun names loads name named =>
    resources name ((mem_resourcesOf opened).2 ⟨form, inFile, names, loads, named⟩)⟩

theorem Step.plain {state after : LoadState} {events : List Event}
    (step : loading.Step state events after) (plainRoot : loading.root.Plain)
    (tasks : ∀ task ∈ state.tasks, task.Plain)
    (resources : ∀ path ∈ filesRead events, loading.PlainResources path) :
    (∀ task ∈ after.tasks, task.Plain) ∧ ∀ path ∈ filesRead events, path.Plain := by
  cases step with
  | declaration | definition | known => exact ⟨fun task later => tasks task (.tail _ later), by simp⟩
  | load other loads =>
    obtain ⟨origin, named⟩ := tasks _ List.mem_cons_self
    refine ⟨fun task listed => ?_, by simp⟩
    rcases List.mem_append.1 listed with new | later
    · obtain ⟨name, inForm, rfl⟩ := List.mem_map.1 new
      exact ⟨origin, named _ loads name inForm⟩
    · exact tasks task (.tail _ later)
  | skipped found new opened switches =>
    have target := find?_plain plainRoot (tasks _ List.mem_cons_self) found
    exact ⟨fun task later => tasks task (.tail _ later), by simpa using target⟩
  | entered found new opened stays =>
    have target := find?_plain plainRoot (tasks _ List.mem_cons_self) found
    refine ⟨fun task listed => ?_, by simpa using target⟩
    rcases List.mem_append.1 listed with new | later
    · exact plain_tasksOf target (resources _ (by simp)) opened task new
    · exact tasks task (.tail _ later)

theorem Runs.plain {state : LoadState} {events : List Event}
    {outcome : Except LoadError (Dict Metadata)} (runs : loading.Runs state events outcome)
    (plainRoot : loading.root.Plain) (tasks : ∀ task ∈ state.tasks, task.Plain)
    (resources : ∀ path ∈ filesRead events, loading.PlainResources path) :
    ∀ path ∈ filesRead events, path.Plain := by
  induction runs with
  | done => simp
  | stuck cannot =>
    cases cannot with
    | mismatch | missing => simp
    | unreadable found new failed =>
      simpa using find?_plain plainRoot (tasks _ List.mem_cons_self) found
  | next step runs ih =>
    rw [filesRead_append, List.forall_mem_append] at resources ⊢
    obtain ⟨later, now⟩ := step.plain plainRoot tasks resources.1
    exact ⟨now, ih later resources.2⟩

theorem Runs.reads_files {state : LoadState} {events : List Event}
    {outcome : Except LoadError (Dict Metadata)} (runs : loading.Runs state events outcome) :
    ∀ path ∈ filesRead events, loading.tree.isFile path = true := by
  induction runs with
  | done => simp
  | stuck cannot =>
    cases cannot with
    | mismatch | missing => simp
    | unreadable found new failed => simpa using List.find?_some found
  | next step runs ih =>
    rw [filesRead_append, List.forall_mem_append]
    refine ⟨?_, ih⟩
    cases step with
    | declaration | load | definition | known => simp
    | skipped found | entered found => simpa using List.find?_some found

end Loading

/-- Plain paths that lead to one entry have the same components. -/
theorem FileTree.SameEntry.components_eq {tree : FileTree} {first second : Path}
    (same : tree.SameEntry first second) (plainFirst : first.Plain) (plainSecond : second.Plain) :
    first.components = second.components := by
  obtain ⟨entry, leads, leadsToo⟩ := same
  have names := (resolve_plain plainFirst leads).symm.trans (resolve_plain plainSecond leadsToo)
  rw [plainFirst.components_eq, plainSecond.components_eq, List.append_cancel_left names]

namespace Loading

variable {loading : Loading}

section
variable {path : Path} (plainRoot : loading.root.Plain) (plain : path.Plain)
  (resources : ∀ origin ∈ filesRead (loading.load path).events, loading.PlainResources origin)
include plainRoot plain resources

theorem load_plain : ∀ origin ∈ filesRead (loading.load path).events, origin.Plain := by
  rcases loading.load_cases path with
    ⟨error, -, loaded⟩ | ⟨text, forms, opened, events, outcome, runs, loaded⟩
  · rw [loaded]
    simpa using plain
  · rw [loaded, filesRead_reading, List.forall_mem_cons] at resources ⊢
    exact ⟨plain, runs.plain plainRoot (plain_tasksOf plain resources.1 opened) resources.2⟩

theorem load_reads_entries_once :
    (filesRead (loading.load path).events).Pairwise fun earlier later =>
      ¬ loading.tree.SameEntry earlier later := by
  have allPlain := load_plain plainRoot plain resources
  refine (loading.load_reads_distinct path).imp_of_mem ?_
  intro earlier later isRead isReadToo different same
  exact different (same.components_eq (allPlain _ isRead) (allPlain _ isReadToo))

theorem load_reads_bounded :
    (filesRead (loading.load path).events).length ≤ max 1 loading.tree.root.fileEntries.length := by
  have once := load_reads_entries_once plainRoot plain resources
  rcases loading.load_cases path with
    ⟨error, -, loaded⟩ | ⟨text, forms, opened, events, outcome, runs, loaded⟩
  · rw [loaded]
    exact Nat.le_max_left _ _
  have files : ∀ origin ∈ filesRead (loading.load path).events, ∃ entry,
      loading.tree.resolve origin = .ok entry ∧ entry ∈ loading.tree.root.fileEntries := by
    intro origin isRead
    have isFile : loading.tree.isFile origin = true := by
      rw [loaded, filesRead_reading] at isRead
      rcases List.mem_cons.1 isRead with rfl | later
      · exact FileTree.isFile_iff.2 (resolve_of_openFile opened)
      · exact runs.reads_files origin later
    obtain ⟨entry, content, resolved, file⟩ := FileTree.isFile_iff.1 isFile
    exact ⟨entry, resolved, FileNode.mem_fileEntries file⟩
  -- The entries of the reads are different members of the list of all files.
  let entryOf (origin : Path) : List String := (loading.tree.resolve origin).toOption.getD []
  have entryOf_eq {origin : Path} {entry : List String}
      (resolved : loading.tree.resolve origin = .ok entry) : entryOf origin = entry := by
    simp only [entryOf, resolved, Except.toOption, Option.getD_some]
  have distinct : ((filesRead (loading.load path).events).map entryOf).Nodup := by
    refine List.pairwise_map.2 (once.imp_of_mem ?_)
    intro earlier later isRead isReadToo different same
    obtain ⟨entry, resolved, -⟩ := files _ isRead
    obtain ⟨other, resolvedOther, -⟩ := files _ isReadToo
    rw [entryOf_eq resolved, entryOf_eq resolvedOther] at same
    exact different ⟨entry, resolved, same ▸ resolvedOther⟩
  have known : (filesRead (loading.load path).events).map entryOf ⊆ loading.tree.root.fileEntries := by
    intro entry member
    obtain ⟨origin, isRead, rfl⟩ := List.mem_map.1 member
    obtain ⟨entry, resolved, file⟩ := files origin isRead
    rwa [entryOf_eq resolved]
  calc (filesRead (loading.load path).events).length
      = ((filesRead (loading.load path).events).map entryOf).length := (List.length_map _).symm
    _ ≤ loading.tree.root.fileEntries.length := (distinct.subperm known).length_le
    _ ≤ _ := Nat.le_max_right _ _

end

end Loading

end VarDoc
