import VarDoc.Proofs.Paths
import VarDoc.Proofs.SnapshotReading

/-! Where snapshots are put. The file is named after the project, and a name
with a slash is a path of its own: the snapshot is an entry of its directory
just when neither the project's name nor its version has a slash. -/

set_option autoImplicit false

namespace VarDoc

namespace Path

theorem unslashed_of_name_mem {path : Path} {name : String} (member : .name name ∈ path.components) :
    '/' ∉ name.toList := by
  obtain ⟨first, rest, split⟩ := path.exists_parts
  have unslashed : ∀ part ∈ first :: rest, component? part = some (.name name) → '/' ∉ name.toList := by
    intro part found made
    have same : String.ofList part = name := by
      unfold component? at made
      split at made
      · contradiction
      · split at made
        · cases made
        · exact Component.name.inj (Option.some.inj made)
    rw [← same, String.toList_ofList]
    apply unslashed_of_mem_splitSlashes
    change part ∈ path.parts
    rwa [split]
  rw [components_of_parts split, List.mem_append] at member
  rcases member with leads | later
  · unfold leading at leads
    split at leads
    · split at leads
      · contradiction
      · simp at leads
    · split at leads
      · simp at leads
      · exact unslashed first List.mem_cons_self (Option.mem_toList.1 leads)
  · obtain ⟨part, found, made⟩ := List.mem_filterMap.1 later
    exact unslashed part (List.mem_cons_of_mem _ found) made

theorem leading_concat (first : List Char) (rest : List (List Char)) (part other : List Char) :
    leading first (rest ++ [part]) = leading first (rest ++ [other]) := by
  unfold leading
  simp

theorem ne_nil_of_component? {part : List Char} {component : Component}
    (made : component? part = some component) : part ≠ [] := by
  rintro rfl
  contradiction

theorem parts_join_name (directory : Path) {file : String} (unslashed : '/' ∉ file.toList)
    (nonempty : file.toList ≠ []) :
    (directory.join ⟨file⟩).isAbsolute = directory.isAbsolute ∧
      ∃ front, (directory.join ⟨file⟩).parts = front ++ [file.toList] ∧
        (directory.parts = front ∨ directory.parts = front ++ [[]]) := by
  have single : Path.parts ⟨file⟩ = [file.toList] := splitSlashes_of_unslashed unslashed
  have relative : Path.isAbsolute ⟨file⟩ = false := by
    rw [← Bool.not_eq_true, isAbsolute_iff single]
    exact fun both => nonempty both.1
  rw [← single]
  exact ⟨isAbsolute_join directory relative, directory.parts_join relative⟩

theorem components_join_name (directory : Path) {file : String} (unslashed : '/' ∉ file.toList)
    (named : component? file.toList = some (.name file)) :
    (directory.join ⟨file⟩).components = directory.components ++ [.name file] := by
  have nonempty := ne_nil_of_component? named
  obtain ⟨absolute, front, joined, whole⟩ := directory.parts_join_name unslashed nonempty
  cases front with
  | nil =>
    have notDot : file.toList ≠ ['.'] := by
      intro dot
      rw [dot] at named
      contradiction
    have empty : directory.parts = [[]] := by
      rcases whole with none | empty
      · exact absurd none (splitSlashes_ne_nil _)
      · exact empty
    rw [components_of_parts joined, components_of_parts empty, leading, leading, if_neg nonempty,
      if_neg notDot, named]
    rfl
  | cons first rest =>
    rw [List.cons_append] at joined
    have later : (rest ++ [file.toList]).filterMap component? =
        rest.filterMap component? ++ [.name file] := by
      rw [List.filterMap_append, List.filterMap_cons_some named, List.filterMap_nil]
    rw [components_of_parts joined, later, ← List.append_assoc]
    congr 1
    rcases whole with whole | whole
    · have same : leading first (rest ++ [file.toList]) = leading first rest := by
        unfold leading
        by_cases empty : first = []
        · have follows : rest ≠ [] := by
            have rooted := (isAbsolute_iff joined).2 ⟨empty, by simp⟩
            rw [absolute, isAbsolute_iff whole] at rooted
            exact rooted.2
          simp [follows]
        · rw [if_neg empty, if_neg empty]
      rw [components_of_parts whole, same]
    · rw [List.cons_append] at whole
      rw [components_of_parts whole, leading_concat first rest file.toList [], List.filterMap_append]
      simp [component?]

end Path

namespace FileTree

/-- A file with a plain name is put into the directory that its path joins the
name to, and nothing else is changed. -/
theorem write_join_name {tree written : FileTree} {directory : Path} {file : String}
    {content : ByteArray} (unslashed : '/' ∉ file.toList) (nonempty : file.toList ≠ [])
    (wrote : tree.write (directory.join ⟨file⟩) content = .ok written) :
    ∃ folder, tree.walk directory = .ok folder ∧
      written = tree.putNode (folder.reverse ++ [file]) (.file content) := by
  obtain ⟨absolute, front, joined, whole⟩ := directory.parts_join_name unslashed nonempty
  have closed : (directory.join ⟨file⟩).parts.getLast? ≠ some [] := by
    rw [joined, List.getLast?_concat]
    exact fun same => nonempty (Option.some.inj same)
  unfold write at wrote
  split at wrote
  next => cases wrote
  next => cases wrote
  next names name entry =>
  obtain ⟨-, before, last, folder, split, followed, rfl, rfl, -, -, -, -, isFolder⟩ :=
    newEntry_name entry closed
  obtain ⟨rfl, same⟩ := List.append_inj' (joined.symm.trans split) rfl
  obtain rfl := List.singleton_inj.1 same
  rw [startOf, absolute, ← startOf] at followed
  refine ⟨folder, ?_, ?_⟩
  · rw [walk]
    rcases whole with whole | whole
    · rw [whole, followed]
    · rw [whole, follow_append, followed]
      exact follow_here isFolder
  · rw [String.ofList_toList] at wrote
    split at wrote
    · cases wrote
    · exact (Except.ok.inj wrote).symm

end FileTree

namespace Project

/-- A `defproject` form with this symbol for a name and this text for a
version, which is empty where none is given. -/
structure Declares (form : Form) (symbol version : String) : Prop where
  call : form.isCallTo "defproject" = true
  named : (form.list?.bind (·[1]?)).bind Form.symbol? = some symbol
  versioned : ((form.list?.bind (·[2]?)).map fun given => (Value.ofForm given).toText).getD "" = version

def snapshotName (symbol version : String) : String :=
  (splitName symbol).2 ++ "-" ++ version ++ ".json.gz"

theorem declares_of_ofForm? {form : Form} {descriptor : Descriptor}
    (described : ofForm? form = some descriptor) :
    ∃ symbol version, Declares form symbol version ∧
      (Document.ofDescriptor descriptor).fileName = snapshotName symbol version := by
  unfold ofForm? at described
  split at described
  · cases described
  next call =>
  obtain ⟨items, listed, described⟩ := Option.bind_eq_some_iff.1 described
  obtain ⟨symbol, named, described⟩ := Option.bind_eq_some_iff.1 described
  obtain rfl := Option.some.inj described
  refine ⟨symbol, _, ⟨by simpa using call, by rw [listed]; exact named, rfl⟩, ?_⟩
  rw [listed]
  rfl

theorem declares_of_ofDirectory {tree : FileTree} {directory : Path} {descriptor : Descriptor}
    (described : (ofDirectory tree directory).value = .ok descriptor) :
    ∃ text forms form symbol version, tree.readText (directory.join ⟨fileName⟩) = .ok text ∧
      readAll Features.standard text = .ok forms ∧ form ∈ forms ∧ Declares form symbol version ∧
      (Document.ofDescriptor descriptor).fileName = snapshotName symbol version := by
  unfold ofDirectory ofFile at described
  split at described
  · cases described
  next text read =>
  split at described
  · cases described
  next forms parsed =>
  split at described
  · cases described
  next form found chosen =>
  obtain rfl := Except.ok.inj described
  obtain ⟨member, inForms, made⟩ := List.exists_of_findSome?_eq_some chosen
  obtain ⟨same, describedForm, pair⟩ := Option.map_eq_some_iff.1 made
  obtain ⟨rfl, rfl⟩ := Prod.mk.inj pair
  obtain ⟨symbol, version, declares, named⟩ := declares_of_ofForm? describedForm
  exact ⟨text, forms, member, symbol, version, read, parsed, inForms, declares, named⟩

/-- The name is what follows the first slash, so it has one itself where the
symbol has two. -/
theorem unslashed_splitName (symbol : String) :
    '/' ∉ (splitName symbol).2.toList ↔ symbol.toList.count '/' ≤ 1 := by
  have before : '/' ∉ symbol.toList.takeWhile (· != '/') := fun member => by
    simpa using List.all_eq_true.1 List.all_takeWhile '/' member
  have whole : symbol.toList.takeWhile (· != '/') ++ symbol.toList.dropWhile (· != '/') =
      symbol.toList := List.takeWhile_append_dropWhile
  unfold splitName
  dsimp only
  split
  next slash name rest =>
    have head : slash = '/' := by
      have first := List.head?_dropWhile_not (· != '/') symbol.toList
      rw [rest] at first
      simpa using first
    rw [rest, head] at whole
    rw [String.toList_ofList, ← whole, List.count_append, List.count_eq_zero_of_not_mem before,
      List.count_cons_self, ← List.count_eq_zero]
    omega
  next rest =>
    rw [rest, List.append_nil] at whole
    rw [whole] at before
    simp [before, List.count_eq_zero_of_not_mem before]

theorem unslashed_snapshotName (symbol version : String) :
    '/' ∉ (snapshotName symbol version).toList ↔
      symbol.toList.count '/' ≤ 1 ∧ '/' ∉ version.toList := by
  rw [← unslashed_splitName]
  simp [snapshotName]

theorem component?_snapshotName (symbol version : String) :
    Path.component? (snapshotName symbol version).toList =
      some (.name (snapshotName symbol version)) := by
  have last : (snapshotName symbol version).toList.getLast? = some 'z' := by
    rw [snapshotName, String.toList_append, List.getLast?_append]
    rfl
  have different (text : List Char) (other : text.getLast? ≠ some 'z') :
      (snapshotName symbol version).toList ≠ text := by
    rintro rfl
    exact other last
  rw [Path.component?, if_neg (not_or.2 ⟨different [] (by decide), different ['.'] (by decide)⟩),
    if_neg (different ['.', '.'] (by decide)), String.ofList_toList]

end Project

/-- Writing a snapshot makes its directory and then writes one file. -/
theorem Snapshot.write_steps {tree written : FileTree} {document : Document} {directory path : Path}
    {level : Nat} (wrote : (write tree document directory level).value = .ok (path, written)) :
    ∃ made, tree.makeDirectories directory = .ok made ∧
      path = directory.join ⟨document.fileName⟩ ∧
      made.write path (contentOf document) = .ok written := by
  unfold write at wrote
  split at wrote
  · cases wrote
  next made makes =>
  refine ⟨made, makes, ?_⟩
  simp only [Logged.after] at wrote
  split at wrote
  · cases wrote
  · cases wrote
  next grown json wroteFile serialized =>
  obtain ⟨rfl, rfl⟩ := Prod.mk.inj (Except.ok.inj wrote)
  exact ⟨rfl, wroteFile⟩

/-- The snapshot of a project is stored under the name and the version that its
project file declares. It is an entry of its directory just when the symbol has
at most one slash and the version has none, and then nothing but that entry and
missing directories changes. -/
theorem snapshot_is_entry_iff {files tree written : FileTree} {home directory path : Path}
    {descriptor : Descriptor} {sources : List SourceFile} {loader : Loader} {level : Nat}
    (described : (Project.ofDirectory files home).value = .ok descriptor)
    (wrote : (Snapshot.write tree (aggregate files descriptor sources loader).value.1.document
      directory level).value = .ok (path, written)) :
    ∃ text forms form symbol version,
      files.readText (home.join ⟨Project.fileName⟩) = .ok text ∧
      readAll Features.standard text = .ok forms ∧ form ∈ forms ∧
      Project.Declares form symbol version ∧
      (path.components = directory.components ++ [.name (Project.snapshotName symbol version)] ↔
        symbol.toList.count '/' ≤ 1 ∧ '/' ∉ version.toList) ∧
      (symbol.toList.count '/' ≤ 1 → '/' ∉ version.toList →
        ∃ made folder, tree.makeDirectories directory = .ok made ∧
          made.walk directory = .ok folder ∧
          written = made.putNode (folder.reverse ++ [Project.snapshotName symbol version]) (.file
            (Snapshot.contentOf (aggregate files descriptor sources loader).value.1.document))) := by
  obtain ⟨text, forms, form, symbol, version, read, parsed, member, declares, named⟩ :=
    Project.declares_of_ofDirectory described
  obtain ⟨made, makes, rfl, wroteFile⟩ := Snapshot.write_steps wrote
  have fileName : (aggregate files descriptor sources loader).value.1.document.fileName =
      Project.snapshotName symbol version :=
    (Aggregation.collect_fileName files sources _ loader).trans named
  rw [fileName] at wroteFile ⊢
  have isName := Project.component?_snapshotName symbol version
  have unslashed := Project.unslashed_snapshotName symbol version
  refine ⟨text, forms, form, symbol, version, read, parsed, member, declares, ?_, ?_⟩
  · rw [← unslashed]
    constructor
    · intro child
      apply Path.unslashed_of_name_mem
      rw [child]
      exact List.mem_append_right _ (List.mem_singleton_self _)
    · exact fun plain => Path.components_join_name directory plain isName
  · intro oneSlash plainVersion
    have plain := unslashed.2 ⟨oneSlash, plainVersion⟩
    obtain ⟨folder, walked, same⟩ :=
      FileTree.write_join_name plain (Path.ne_nil_of_component? isName) wroteFile
    exact ⟨made, folder, makes, walked, same⟩

def projectOf (text : String) : FileTree := ⟨.directory [("project.clj", .file text.toUTF8)], []⟩

/-- A symbol with one slash gives an entry of the directory, which is made. -/
theorem qualified_project_in_target : ∃ descriptor path written,
    (Project.ofDirectory (projectOf "(defproject org.demo/demo \"1.0\")") ⟨"."⟩).value =
      .ok descriptor ∧
    (Snapshot.write (projectOf "(defproject org.demo/demo \"1.0\")")
      (aggregate (projectOf "(defproject org.demo/demo \"1.0\")") descriptor []
        (Loader.new Features.standard)).value.1.document ⟨"target"⟩ Snapshot.standardLevel).value =
      .ok (path, written) ∧
    path.components = [.name "target", .name "demo-1.0.json.gz"] := by
  generalize tree : projectOf "(defproject org.demo/demo \"1.0\")" = files
  have written : (Project.ofDirectory files ⟨"."⟩).value.toOption.any (fun descriptor =>
      (Snapshot.write files (aggregate files descriptor [] (Loader.new Features.standard)).value.1.document
        ⟨"target"⟩ Snapshot.standardLevel).value.toOption.isSome) = true := by
    subst tree
    decide +kernel
  have declared : ((files.readText (Path.join ⟨"."⟩ ⟨Project.fileName⟩)).toOption.bind fun text =>
      (readAll Features.standard text).toOption).all (·.all fun form =>
        (form.list?.bind (·[1]?)).bind Form.symbol? == some "org.demo/demo" &&
        ((form.list?.bind (·[2]?)).map fun given => (Value.ofForm given).toText).getD "" == "1.0") =
        true := by
    subst tree
    decide +kernel
  obtain ⟨descriptor, found, written⟩ := (Option.any_eq_true _ _).1 written
  obtain ⟨⟨path, grown⟩, wrote⟩ := Option.isSome_iff_exists.1 written
  have described := eq_ok_of_toOption found
  have wrote := eq_ok_of_toOption wrote
  obtain ⟨text, forms, form, symbol, version, read, parsed, member, declares, child, -⟩ :=
    snapshot_is_entry_iff described wrote
  rw [read] at declared
  change (readAll Features.standard text).toOption.all _ = true at declared
  rw [parsed] at declared
  have same := List.all_eq_true.1 declared form member
  rw [declares.named, declares.versioned, Bool.and_eq_true, beq_iff_eq, beq_iff_eq] at same
  obtain ⟨symbolSame, rfl⟩ := same
  obtain rfl := Option.some.inj symbolSame
  exact ⟨descriptor, path, grown, described, wrote, child.2 (by decide +kernel)⟩

/-- A symbol with a second slash and two dots after the first leaves the
directory: the snapshot lies beside it, and nothing lies in it. -/
theorem dotted_name_leaves_directory : ∃ descriptor path written,
    (Project.ofDirectory (projectOf "(defproject g/../x \"1.0\")") ⟨"."⟩).value = .ok descriptor ∧
    (Snapshot.write (projectOf "(defproject g/../x \"1.0\")")
      (aggregate (projectOf "(defproject g/../x \"1.0\")") descriptor []
        (Loader.new Features.standard)).value.1.document ⟨"out"⟩ Snapshot.standardLevel).value =
      .ok (path, written) ∧
    path.components = [.name "out", .up, .name "x-1.0.json.gz"] ∧
    written.root.fileEntries = [["project.clj"], ["x-1.0.json.gz"]] := by
  generalize tree : projectOf "(defproject g/../x \"1.0\")" = files
  have tried : (Project.ofDirectory files ⟨"."⟩).value.toOption.any (fun descriptor =>
      (Snapshot.write files (aggregate files descriptor [] (Loader.new Features.standard)).value.1.document
        ⟨"out"⟩ Snapshot.standardLevel).value.toOption.any fun result =>
          result.1.components == [.name "out", .up, .name "x-1.0.json.gz"] &&
          result.2.root.fileEntries == [["project.clj"], ["x-1.0.json.gz"]]) = true := by
    subst tree
    decide +kernel
  obtain ⟨descriptor, found, tried⟩ := (Option.any_eq_true _ _).1 tried
  obtain ⟨⟨path, written⟩, wrote, tried⟩ := (Option.any_eq_true _ _).1 tried
  rw [Bool.and_eq_true, beq_iff_eq, beq_iff_eq] at tried
  exact ⟨descriptor, path, written, eq_ok_of_toOption found, eq_ok_of_toOption wrote, tried⟩

end VarDoc
