import VarDoc.Proofs.LoadedResources
import VarDoc.Proofs.Paths
import VarDoc.Proofs.Traversal

/-! Where the resources of `load` forms are found. A resource is looked for in
the directory of the file that names it, at whatever depth of loading, and one
that starts with a slash under the source root. -/

set_option autoImplicit false

namespace VarDoc

def resourcePath (resource : String) : Path :=
  match resource.toList with
  | '/' :: rest => ⟨String.ofList rest⟩
  | _ => ⟨resource⟩

theorem resourcePath_slash {resource : String} {rest : List Char}
    (slash : resource.toList = '/' :: rest) : resourcePath resource = ⟨String.ofList rest⟩ := by
  unfold resourcePath
  rw [slash]
  rfl

theorem resourcePath_other {resource : String} (other : ∀ rest, resource.toList ≠ '/' :: rest) :
    resourcePath resource = ⟨resource⟩ := by
  unfold resourcePath
  split
  next rest slash => exact absurd slash (other rest)
  next => rfl

namespace FileTree

def fileFrom? (tree : FileTree) (folder : List String) (text : String) : Option (List String) :=
  match tree.follow folder.reverse (splitSlashes text.toList) with
  | .error _ => none
  | .ok trail =>
    match tree.root.get? trail.reverse with
    | some (.file _) => some trail.reverse
    | _ => none

def resourceFrom? (tree : FileTree) (folder : List String) (text : String) : Option (List String) :=
  (tree.fileFrom? folder (text ++ ".clj")).or (tree.fileFrom? folder (text ++ ".cljc"))

variable {tree : FileTree}

theorem fileFrom?_eq_some_iff {folder entry : List String} {text : String} :
    tree.fileFrom? folder text = some entry ↔
      tree.follow folder.reverse (splitSlashes text.toList) = .ok entry.reverse ∧
        ∃ content, tree.root.get? entry = some (.file content) := by
  rw [fileFrom?]
  cases tree.follow folder.reverse (splitSlashes text.toList) with
  | error => simp
  | ok trail =>
    simp only [Except.ok.injEq]
    constructor
    · intro found
      split at found
      next content file =>
        cases found
        exact ⟨List.reverse_reverse trail |>.symm, content, file⟩
      · contradiction
    · rintro ⟨rfl, content, file⟩
      simp [file]

theorem isFile_iff {path : Path} :
    tree.isFile path = true ↔
      ∃ entry content, tree.resolve path = .ok entry ∧ tree.root.get? entry = some (.file content) := by
  unfold isFile node
  cases tree.resolve path with
  | error => simp
  | ok entry =>
    cases found : tree.root.get? entry with
    | none => simp [found]
    | some node => cases node <;> simp [found]

theorem checkText_eq_ok_iff {path : Path} :
    checkText path = .ok () ↔
      '\x00' ∉ path.text.toList ∧ path.text ≠ "" ∧ path.size < pathLimit := by
  unfold checkText
  split
  next nul => simp_all
  next =>
    split
    next empty => simp_all
    next => split <;> simp_all

/-- What can be looked up with the longer ending can be looked up with the
shorter one. -/
theorem checkText_of_longer {text shorter : String} (rest : String) (nonempty : shorter ≠ "")
    (checked : checkText ⟨text ++ (shorter ++ rest)⟩ = .ok ()) :
    checkText ⟨text ++ shorter⟩ = .ok () := by
  obtain ⟨noNul, -, short⟩ := checkText_eq_ok_iff.1 checked
  simp only [Path.size, String.toList_append, Text.width_append, List.mem_append, not_or] at noNul short
  refine checkText_eq_ok_iff.2 ⟨?_, ?_, ?_⟩
  · simpa using ⟨noNul.1, noNul.2.1⟩
  · simp [nonempty]
  · simp only [Path.size, String.toList_append, Text.width_append]
    omega

theorem resolve_join_file {base : Path} {folder : List String}
    (walked : tree.walk base = .ok folder.reverse) {text : String}
    (relative : Path.isAbsolute ⟨text⟩ = false) {entry : List String} :
    (tree.resolve (base.join ⟨text⟩) = .ok entry ∧
        ∃ content, tree.root.get? entry = some (.file content)) ↔
      checkText (base.join ⟨text⟩) = .ok () ∧ tree.fileFrom? folder text = some entry := by
  have joined : tree.walk (base.join ⟨text⟩) = tree.follow folder.reverse (splitSlashes text.toList) := by
    rw [walk_join base relative, walked]
    rfl
  rw [resolve_eq_ok_iff, joined, fileFrom?_eq_some_iff, and_assoc]

theorem isFile_join {base : Path} {text : String} (relative : Path.isAbsolute ⟨text⟩ = false) :
    tree.isFile (base.join ⟨text⟩) = true ↔
      ∃ folder entry, tree.walk base = .ok folder.reverse ∧
        checkText (base.join ⟨text⟩) = .ok () ∧ tree.fileFrom? folder text = some entry := by
  rw [isFile_iff]
  constructor
  · rintro ⟨entry, content, resolved, file⟩
    have joined := (resolve_eq_ok_iff.1 resolved).2
    rw [walk_join base relative] at joined
    cases walked : tree.walk base with
    | error => rw [walked] at joined; contradiction
    | ok trail =>
      rw [← List.reverse_reverse trail] at walked
      exact ⟨trail.reverse, entry, by rw [List.reverse_reverse],
        (resolve_join_file walked relative).1 ⟨resolved, content, file⟩⟩
  · rintro ⟨folder, entry, walked, there⟩
    obtain ⟨resolved, content, file⟩ := (resolve_join_file walked relative).2 there
    exact ⟨entry, content, resolved, file⟩

end FileTree

namespace Loading

variable {loading : Loading}

theorem resolve_of_openFile {path : Path} {opened : String × List Form}
    (succeeded : loading.openFile path = .ok opened) :
    ∃ entry content, loading.tree.resolve path = .ok entry ∧
      loading.tree.root.get? entry = some (.file content) := by
  unfold openFile at succeeded
  split at succeeded
  · contradiction
  next text read =>
    apply FileTree.isFile_iff.1
    unfold FileTree.readText FileTree.read at read
    unfold FileTree.isFile
    split at read
    · contradiction
    next content found =>
      split at found
      next file => rw [file]
      · contradiction
      · contradiction

/-- The directory where a resource is looked for. It is the source root if the
resource starts with a slash, and else the one that holds the file with the
`load` form. -/
def LooksIn (loading : Loading) (origin : Path) (resource : String) (folder : List String) : Prop :=
  if resource.toList.head? = some '/' then loading.tree.walk loading.root = .ok folder.reverse
  else ∃ name, loading.tree.resolve origin = .ok (folder ++ [name])

def lookupBase (loading : Loading) (origin : Path) (resource : String) : Path :=
  if resource.toList.head? = some '/' then loading.root else origin.parent?.getD loading.root

theorem candidates_eq (origin : Path) (resource : String) :
    loading.candidates origin resource =
      [(loading.lookupBase origin resource).join ⟨(resourcePath resource).text ++ ".clj"⟩,
        (loading.lookupBase origin resource).join ⟨(resourcePath resource).text ++ ".cljc"⟩] := by
  rw [← Path.join_append _ _ (by decide), ← Path.join_append _ _ (by decide)]
  unfold candidates lookupBase
  split
  next rest slash => rw [resourcePath_slash slash, if_pos (by rw [slash]; rfl)]
  next other =>
    have relative : resource.toList.head? ≠ some '/' := by
      cases text : resource.toList with
      | nil => simp
      | cons c rest =>
        rintro same
        cases same
        exact other rest text
    rw [resourcePath_other other, if_neg relative]

/-- The directory of a file that has been opened is the one its parent path
leads to. -/
theorem looksIn_iff {origin : Path} {opened : String × List Form}
    (succeeded : loading.openFile origin = .ok opened) {resource : String} {folder : List String} :
    loading.LooksIn origin resource folder ↔
      loading.tree.walk (loading.lookupBase origin resource) = .ok folder.reverse := by
  unfold LooksIn lookupBase
  split
  · rfl
  · obtain ⟨entry, content, resolved, file⟩ := resolve_of_openFile succeeded
    have walked := (FileTree.resolve_eq_ok_iff.1 resolved).2
    obtain ⟨parent, name, outer, isParent, trail, walkedParent⟩ :=
      FileTree.walk_parent walked (by rwa [List.reverse_reverse])
    have whole : entry = outer.reverse ++ [name] := by
      rw [← List.reverse_inj, trail]
      simp
    rw [isParent, Option.getD_some, walkedParent, resolved, whole]
    constructor
    · rintro ⟨other, same⟩
      obtain ⟨rfl, -⟩ := List.append_inj' (Except.ok.inj same) rfl
      rw [List.reverse_reverse]
    · intro same
      rw [Except.ok.inj same, List.reverse_reverse]
      exact ⟨name, rfl⟩

/-- How a lookup has to end: with the file that the resource names in the
directory where it is looked for, or because no file is there that a path can
be spelled for. -/
def Resolves (loading : Loading) (origin : Path) (resource : String) : Option Path → Prop
  | some target => ∃ folder entry, loading.LooksIn origin resource folder ∧
      loading.tree.resolve target = .ok entry ∧
      loading.tree.resourceFrom? folder (resourcePath resource).text = some entry
  | none => ∀ folder, loading.LooksIn origin resource folder → ∀ ending ∈ [".clj", ".cljc"],
      loading.tree.fileFrom? folder ((resourcePath resource).text ++ ending) = none ∨
        FileTree.checkText ((loading.lookupBase origin resource).join
          ⟨(resourcePath resource).text ++ ending⟩) ≠ .ok ()

theorem find?_resolves {origin : Path} {opened : String × List Form}
    (succeeded : loading.openFile origin = .ok opened) {resource : String}
    (relative : (resourcePath resource).isAbsolute = false) :
    loading.Resolves origin resource (loading.find? origin resource) := by
  let base := loading.lookupBase origin resource
  let text := (resourcePath resource).text
  have relativeWith (ending : String) (unslashed : ending.toList.head? ≠ some '/') :
      Path.isAbsolute ⟨text ++ ending⟩ = false :=
    (Path.isAbsolute_append text unslashed).trans relative
  have relativeFirst := relativeWith ".clj" (by decide)
  have relativeSecond := relativeWith ".cljc" (by decide)
  rw [find?, candidates_eq, List.find?_cons, List.find?_cons, List.find?_nil]
  split
  next isFirst =>
    obtain ⟨folder, entry, walked, there⟩ := (FileTree.isFile_join relativeFirst).1 isFirst
    obtain ⟨resolved, -⟩ := (FileTree.resolve_join_file walked relativeFirst).2 there
    refine ⟨folder, entry, (looksIn_iff succeeded).2 walked, resolved, ?_⟩
    rw [FileTree.resourceFrom?, there.2, Option.some_or]
  next notFirst =>
    split
    next isSecond =>
      obtain ⟨folder, entry, walked, there⟩ := (FileTree.isFile_join relativeSecond).1 isSecond
      obtain ⟨resolved, -⟩ := (FileTree.resolve_join_file walked relativeSecond).2 there
      refine ⟨folder, entry, (looksIn_iff succeeded).2 walked, resolved, ?_⟩
      -- The shorter path can be looked up as well, so there is no file at it.
      have checked : FileTree.checkText (base.join ⟨text ++ ".clj"⟩) = .ok () := by
        have longer := there.1
        rw [← Path.join_append _ _ (by decide)] at longer ⊢
        exact FileTree.checkText_of_longer "c" (by decide) longer
      have absent : loading.tree.fileFrom? folder (text ++ ".clj") = none := by
        rw [Option.eq_none_iff_forall_ne_some]
        intro other found
        have isFirst := (FileTree.isFile_join relativeFirst).2 ⟨folder, other, walked, checked, found⟩
        cases notFirst.symm.trans isFirst
      rw [FileTree.resourceFrom?, absent, there.2, Option.none_or]
    next notSecond =>
      intro folder looks
      have walked := (looksIn_iff succeeded).1 looks
      have absent {ending : String} (relative : Path.isAbsolute ⟨text ++ ending⟩ = false)
          (notFile : loading.tree.isFile (base.join ⟨text ++ ending⟩) = false) :
          loading.tree.fileFrom? folder (text ++ ending) = none ∨
            FileTree.checkText (base.join ⟨text ++ ending⟩) ≠ .ok () := by
        cases found : loading.tree.fileFrom? folder (text ++ ending) with
        | none => exact .inl rfl
        | some entry =>
          refine .inr fun checked => ?_
          have isFile := (FileTree.isFile_join relative).2 ⟨folder, entry, walked, checked, found⟩
          cases notFile.symm.trans isFile
      simpa using ⟨absent relativeFirst notFirst, absent relativeSecond notSecond⟩

end Loading

/-- Resources are looked for in the directory of the file that names them, or
from the root. A load reads what is found so, and a load that succeeds has read
all of it. -/
theorem load_resolves_beside_loading_file (loader : Loader) (tree : FileTree) (source : SourceFile)
    (name : String) :
    let loading : Loading := ⟨tree, loader.features, source.root, name⟩
    let loaded := loader.load tree source name
    let read := filesRead loaded.events
    (∀ origin, ∀ resource ∈ loading.resourcesOf origin, (resourcePath resource).isAbsolute = false →
        loading.Resolves origin resource (loading.find? origin resource)) ∧
      (∃ later, read = source.path :: later ∧
        ∀ before target after, later = before ++ target :: after →
          ∃ origin ∈ source.path :: before, ∃ resource ∈ loading.resourcesOf origin,
            loading.find? origin resource = some target) ∧
      (∀ space, loaded.value.1 = .ok space →
        ∀ origin ∈ read, origin = source.path ∨ loading.Joins origin →
          ∀ resource ∈ loading.resourcesOf origin, ∃ found,
            loading.find? origin resource = some found ∧ ∃ target ∈ read, tree.SameEntry found target) ∧
      ∀ resource origin, loaded.value.1 = .error (.loadNotFound resource origin) →
        origin ∈ read ∧ resource ∈ loading.resourcesOf origin ∧ loading.find? origin resource = none := by
  intro loading loaded read
  refine ⟨fun origin resource named relative => ?_, ?_⟩
  · obtain ⟨opened, succeeded⟩ := Loading.opened_of_mem_resourcesOf named
    exact Loading.find?_resolves succeeded relative
  have value : loaded.value.1 = (loading.load source.path).value.map (.mk name) := loader.load_value ..
  have reads : read = filesRead (loading.load source.path).events := loader.filesRead_load ..
  rw [reads, value]
  refine ⟨loading.load_reads_targets source.path, ?_, ?_⟩
  · intro space succeeded origin member followed resource named
    obtain ⟨vars, isOk, -⟩ := exceptMap_eq_ok_iff.1 succeeded
    obtain ⟨found, isFound, target, isRead, same, opened, opens⟩ :=
      Loading.load_settles isOk member followed named
    refine ⟨found, isFound, target, isRead, ?_⟩
    obtain ⟨entry, -, resolved, -⟩ := Loading.resolve_of_openFile opens
    obtain ⟨entryFound, -, resolvedFound, -⟩ :=
      FileTree.isFile_iff.1 (List.find?_some isFound)
    have sameEntry := FileTree.resolve_of_components same resolved resolvedFound
    exact ⟨entryFound, resolvedFound, sameEntry ▸ resolved⟩
  · intro resource origin failed
    cases outcome : (loading.load source.path).value with
    | ok vars => rw [outcome] at failed; contradiction
    | error error =>
      rw [outcome] at failed
      obtain rfl := Except.error.inj failed
      exact Loading.load_missing outcome

/-- A namespace with a file in a subdirectory that loads `b`. There is a file of
that name beside it and another one beside the main file. -/
def nestedLoadTree : FileTree where
  root := .directory [("src", .directory [("demo", .directory
    [("b.clj", .file "(in-ns 'demo.core)\n(def beside-namespace 1)\n".toUTF8),
      ("core.clj", .file "(ns demo.core)\n(load \"sub/a\")\n".toUTF8),
      ("sub", .directory
        [("a.clj", .file "(in-ns 'demo.core)\n(load \"b\")\n".toUTF8),
          ("b.clj", .file "(in-ns 'demo.core)\n(def beside-loading-file 1)\n".toUTF8)])])])]
  workingDirectory := []

/-- The directory of the main file is not where the resource is looked for, even
though there is a file for it. -/
theorem nested_resource_missed_beside_main_file :
    let loaded := (Loader.new ["clj"]).load nestedLoadTree ⟨⟨"src"⟩, ⟨"src/demo/core.clj"⟩⟩ "demo.core"
    filesRead loaded.events =
        [⟨"src/demo/core.clj"⟩, ⟨"src/demo/sub/a.clj"⟩, ⟨"src/demo/sub/b.clj"⟩] ∧
      nestedLoadTree.resourceFrom? ["src", "demo"] "b" = some ["src", "demo", "b.clj"] ∧
      (loaded.value.1.map recordedFiles).toOption = some [some "demo/sub/b.clj"] := by
  obtain ⟨reads, files⟩ := (Loader.new ["clj"]).see_load nestedLoadTree
    ⟨⟨"src"⟩, ⟨"src/demo/core.clj"⟩⟩ "demo.core" 20 recordedFiles
    [⟨"src/demo/core.clj"⟩, ⟨"src/demo/sub/a.clj"⟩, ⟨"src/demo/sub/b.clj"⟩]
    (some [some "demo/sub/b.clj"]) (by decide +kernel)
  exact ⟨reads, by decide +kernel, files⟩

end VarDoc
