import VarDoc.Proofs.PathOrder
import VarDoc.Proofs.PatternPlaces

/-! Which files are discovered. With each extension exactly the files at any depth
beneath the root are found whose names end in it, each at its plainest spelling. The
files of all extensions come together in one ordered collection, which depends only
on what it holds: not on the order of the extensions and not on how the root is
spelled. -/

set_option autoImplicit false

namespace VarDoc

namespace Discovery

open VarDoc.Path (spelled)

/-- A regular file at some depth beneath a root, and the name that it has there. Its path has the
components of the root, without dots that change nothing, and then the names that lead to it. -/
structure Beneath (tree : FileTree) (root path : Path) (base : String) : Prop where
  isFile : tree.isFile path = true
  path_eq : ∃ names, (∀ name ∈ names ++ [base], FileNode.IsName name) ∧
    path = ⟨Path.joinText (root.withoutHere ++ (names ++ [base]).map .name)⟩

def Literal (extension : String) : Prop := ∀ c ∈ ['*', '?', '[', ']', '/'], c ∉ extension.toList

theorem Literal.plain {extension : String} (literal : Literal extension) :
    ∀ c ∈ extension.toList, c ∉ Glob.wild := by
  have listed : Glob.wild ⊆ ['*', '?', '[', ']', '/'] := by simp [Glob.wild]
  exact fun c member special => literal c (listed special) member

theorem Literal.unslashed {extension : String} (literal : Literal extension) : '/' ∉ extension.toList :=
  literal '/' (by decide)

section

variable {tree : FileTree} {root : Path}

theorem proper_names {names : List String} (named : ∀ name ∈ names, FileNode.IsName name) :
    Path.AllProper (names.map Path.Component.name) := by
  intro component member
  obtain ⟨name, among, rfl⟩ := List.mem_map.1 member
  exact FileNode.isName_iff_proper.1 (named name among)

theorem proper_below (relative : root.isAbsolute = false) {names : List String}
    (named : ∀ name ∈ names, FileNode.IsName name) :
    Path.AllProper (root.withoutHere ++ names.map .name) :=
  List.forall_mem_append.2 ⟨Path.proper_withoutHere relative, proper_names named⟩

theorem Beneath.fileName? {path : Path} {base : String} (relative : root.isAbsolute = false)
    (beneath : Beneath tree root path base) : path.fileName? = some base := by
  obtain ⟨names, named, rfl⟩ := beneath.path_eq
  obtain ⟨namedFolders, namedBase⟩ := List.forall_mem_append.1 named
  have name := FileNode.isName_iff_proper.1 (namedBase base (List.mem_singleton_self _))
  rw [← Path.spelled_of_ne_nil (by simp), List.map_append, ← List.append_assoc]
  exact Path.fileName?_spelled (proper_below relative namedFolders) name

theorem Beneath.spelledPlainly {path : Path} {base : String} (relative : root.isAbsolute = false)
    (beneath : Beneath tree root path base) : path.SpelledPlainly := by
  obtain ⟨names, named, rfl⟩ := beneath.path_eq
  rw [← Path.spelled_of_ne_nil (by simp), Path.SpelledPlainly,
    Path.components_spelled (proper_below relative named) (by simp)]

theorem Beneath.mem_below {path : Path} {base : String} (relative : root.isAbsolute = false)
    (beneath : Beneath tree root path base) :
    ∃ folder content, tree.node (spelled root.withoutHere) = .ok folder ∧
      ⟨path, .file content⟩ ∈ Glob.Place.below (spelled root.withoutHere) folder := by
  have proper := Path.proper_withoutHere relative
  obtain ⟨names, named, rfl⟩ := beneath.path_eq
  obtain ⟨entry, content, resolved, there⟩ := FileTree.isFile_iff.1 beneath.isFile
  have found := FileTree.node_eq_ok_iff.2 ⟨entry, resolved, there⟩
  rw [← Path.spelled_of_ne_nil (by simp)] at found ⊢
  obtain ⟨folder, foundFolder, leads⟩ := FileTree.node_spelled_names proper
    (fun name member => FileNode.isName_iff_proper.1 (named name member)) found
  refine ⟨folder, content, foundFolder, ?_⟩
  obtain ⟨first, rest, split⟩ : ∃ first rest, names ++ [base] = first :: rest :=
    List.exists_cons_of_ne_nil (by simp)
  rw [split] at named leads ⊢
  exact Glob.mem_below proper named leads

/-- With an extension exactly the files are found whose names end in it. -/
theorem filesOf_cleanRoot (rootNamed : tree.root.WellNamed) (relative : root.isAbsolute = false)
    {extension : String} (literal : Literal extension) :
    ∃ paths, filesOf tree (cleanRoot root) extension = .ok paths ∧ ∀ path, path ∈ paths ↔
      ∃ base, Beneath tree root path base ∧ '.' :: extension.toList <:+ base.toList := by
  have proper := Path.proper_withoutHere relative
  have read := Glob.read?_pattern (Path.text_spelled_ne_empty proper) (Path.isAbsolute_spelled proper)
    literal.plain literal.unslashed
  refine ⟨_, by rw [Path.cleanRoot_eq_spelled relative, filesOf, read], fun path => ?_⟩
  rw [List.mem_filter, List.mem_map]
  constructor
  · rintro ⟨⟨place, member, rfl⟩, isFile⟩
    obtain ⟨folder, named, followed⟩ := Glob.of_mem_find proper rootNamed member
    obtain ⟨below, ending⟩ := Glob.mem_follow_extension.1 followed
    obtain ⟨names, base, isName, path⟩ := Glob.path_of_mem_below named proper below
    have beneath : Beneath tree root place.path base :=
      ⟨isFile, names, isName, by rw [path, Path.spelled_of_ne_nil (by simp)]⟩
    refine ⟨base, beneath, ?_⟩
    rwa [Glob.Place.name, beneath.fileName? relative] at ending
  · rintro ⟨base, beneath, ending⟩
    obtain ⟨folder, content, there, below⟩ := beneath.mem_below relative
    refine ⟨⟨⟨path, .file content⟩, Glob.mem_find proper there ?_, rfl⟩, beneath.isFile⟩
    refine Glob.mem_follow_extension.2 ⟨below, ?_⟩
    rwa [Glob.Place.name, beneath.fileName? relative]

theorem kept_cleanRoot (rootNamed : tree.root.WellNamed) (relative : root.isAbsolute = false)
    (discovery : Discovery) {extension : String} (literal : Literal extension) :
    ∃ paths, filesOf tree (cleanRoot root) extension = .ok paths ∧
      ∀ path, path ∈ paths.filter (fun path => !discovery.isExcluded path) ↔
        ∃ base, Beneath tree root path base ∧ '.' :: extension.toList <:+ base.toList ∧
          base ∉ discovery.exclude := by
  obtain ⟨paths, read, members⟩ := filesOf_cleanRoot rootNamed relative literal
  refine ⟨paths, read, fun path => ?_⟩
  have excluded {base : String} (beneath : Beneath tree root path base) :
      discovery.isExcluded path = false ↔ base ∉ discovery.exclude := by
    simp [isExcluded, beneath.fileName? relative]
  rw [List.mem_filter, members, Bool.not_eq_true']
  constructor
  · rintro ⟨⟨base, beneath, ending⟩, kept⟩
    exact ⟨base, beneath, ending, (excluded beneath).1 kept⟩
  · rintro ⟨base, beneath, ending, kept⟩
    exact ⟨⟨base, beneath, ending⟩, (excluded beneath).2 kept⟩

theorem gather_cleanRoot (rootNamed : tree.root.WellNamed) (relative : root.isAbsolute = false)
    (discovery : Discovery) {extensions : List String}
    (literal : ∀ extension ∈ extensions, Literal extension) {found : List Path}
    (collection : Collection found) :
    ∃ result, (discovery.gather tree (cleanRoot root) found extensions).value = .ok result ∧
      Collection result ∧ ∀ path, path ∈ result ↔ path ∈ found ∨
        ∃ base, Beneath tree root path base ∧
          (∃ extension ∈ extensions, '.' :: extension.toList <:+ base.toList) ∧
          base ∉ discovery.exclude := by
  -- What is found before grows with every extension, so the collection is general.
  induction extensions generalizing found with
  | nil => exact ⟨found, rfl, collection, by simp⟩
  | cons extension rest ih =>
    obtain ⟨literalFirst, literalRest⟩ := List.forall_mem_cons.1 literal
    obtain ⟨paths, read, kept⟩ := kept_cleanRoot rootNamed relative discovery literalFirst
    have plain : ∀ path ∈ paths.filter fun path => !discovery.isExcluded path, path.SpelledPlainly := by
      intro path member
      obtain ⟨base, beneath, -⟩ := (kept path).1 member
      exact beneath.spelledPlainly relative
    obtain ⟨inserted, together⟩ := collection.insertAll plain
    obtain ⟨result, gathered, collected, all⟩ := ih literalRest inserted
    refine ⟨result, ?_, collected, fun path => ?_⟩
    · rw [gather, read]
      exact gathered
    · rw [all, together, kept, or_assoc]
      simp only [List.exists_mem_cons_iff, or_and_right, and_or_left, exists_or]

def Wants (discovery : Discovery) (base : String) : Prop :=
  (∃ extension ∈ discovery.extensions, '.' :: extension.toList <:+ base.toList) ∧
    base ∉ discovery.exclude

theorem discover_value (rootNamed : tree.root.WellNamed) (relative : root.isAbsolute = false)
    (there : tree.isDirectory root = true) {discovery : Discovery}
    (literal : ∀ extension ∈ discovery.extensions, Literal extension) :
    ∃ paths : List Path,
      (discovery.discover tree root).value = .ok (paths.map (⟨spelled root.withoutHere, ·⟩)) ∧
      paths.Pairwise Path.Before ∧
      ∀ path, path ∈ paths ↔ ∃ base, Beneath tree root path base ∧ discovery.Wants base := by
  obtain ⟨paths, gathered, collection, members⟩ :=
    gather_cleanRoot rootNamed relative discovery literal ⟨List.Pairwise.nil, by simp⟩
  refine ⟨paths, ?_, collection.ordered, fun path => ?_⟩
  · rw [discover, if_pos there, Logged.map, gathered, Path.cleanRoot_eq_spelled relative]
    rfl
  · rw [members]
    simp [Wants]

theorem discover_respelled (relative : root.isAbsolute = false) (there : tree.isDirectory root = true)
    (discovery : Discovery) {other : Path} (alsoRelative : other.isAbsolute = false)
    (same : other.withoutHere = root.withoutHere) (checked : FileTree.checkText other = .ok ()) :
    discovery.discover tree other = discovery.discover tree root := by
  have alsoThere := FileTree.isDirectory_of_respelled relative alsoRelative same checked there
  rw [discover, discover, if_pos there, if_pos alsoThere, Path.cleanRoot_eq_spelled relative,
    Path.cleanRoot_eq_spelled alsoRelative, same]

end

/-- Exactly the files beneath the root with a name that is looked for are discovered, each once
and in the order of their paths. In what order and how often the extensions are given, and how
the root is spelled, makes no difference. -/
theorem discovers_exactly {tree : FileTree} (named : tree.root.WellNamed) {root : Path}
    (relative : root.isAbsolute = false) (there : tree.isDirectory root = true) (discovery : Discovery)
    (literal : ∀ extension ∈ discovery.extensions, Literal extension) :
    ∃ files, (discovery.discover tree root).value = .ok files ∧
      (∀ source : SourceFile, source ∈ files ↔ source.root = spelled root.withoutHere ∧
        ∃ base, Beneath tree root source.path base ∧ discovery.Wants base) ∧
      files.Pairwise (fun first second => first.path.Before second.path) ∧ files.Nodup ∧
      (∀ extensions, (∀ extension, extension ∈ extensions ↔ extension ∈ discovery.extensions) →
        (discover ⟨extensions, discovery.exclude⟩ tree root).value = .ok files) ∧
      ∀ other : Path, other.isAbsolute = false → other.withoutHere = root.withoutHere →
        FileTree.checkText other = .ok () → discovery.discover tree other = discovery.discover tree root := by
  obtain ⟨paths, discovered, ordered, members⟩ := discover_value named relative there literal
  have orderedFiles : (paths.map (SourceFile.mk (spelled root.withoutHere))).Pairwise
      fun first second => first.path.Before second.path := List.pairwise_map.2 ordered
  refine ⟨_, discovered, fun source => ?_, orderedFiles, ?_, fun extensions alike => ?_, ?_⟩
  · rw [List.mem_map]
    constructor
    · rintro ⟨path, member, rfl⟩
      exact ⟨rfl, (members path).1 member⟩
    · rintro ⟨sameRoot, wanted⟩
      exact ⟨source.path, (members source.path).2 wanted, by rw [← sameRoot]⟩
  · exact orderedFiles.imp fun before same => before.ne (congrArg SourceFile.path same)
  · let reordered : Discovery := ⟨extensions, discovery.exclude⟩
    have alsoLiteral : ∀ extension ∈ reordered.extensions, Literal extension :=
      fun extension member => literal extension ((alike extension).1 member)
    obtain ⟨others, discoveredOthers, orderedOthers, otherMembers⟩ :=
      discover_value named relative there alsoLiteral
    have samePaths : others = paths := by
      refine Path.eq_of_ordered orderedOthers ordered fun path => ?_
      rw [otherMembers, members]
      simp only [Wants, reordered, alike]
    rw [discoveredOthers, samePaths]
  · intro other alsoRelative same checked
    exact discover_respelled relative there discovery alsoRelative same checked

theorem discovers_beneath_bracketed_root :
    let file : FileNode := .file ⟨#[]⟩
    let tree : FileTree := ⟨.directory [("[*]", .directory [("a", .directory [("b.clj", file)]),
      ("a.clj", .directory [("c.clj", file), ("user.clj", file)])])], []⟩
    let discovery : Discovery := ⟨["cljc", "clj", "clj"], ["user.clj"]⟩
    ∃ files, (discovery.discover tree ⟨"./[*]//"⟩).value = .ok files ∧
      ⟨⟨"[*]"⟩, ⟨"[*]/a.clj/c.clj"⟩⟩ ∈ files ∧ ⟨⟨"[*]"⟩, ⟨"[*]/a.clj/user.clj"⟩⟩ ∉ files ∧
      (discover ⟨["clj", "cljc"], ["user.clj"]⟩ tree ⟨"./[*]//"⟩).value = .ok files ∧
      (discovery.discover tree ⟨"[*]"⟩).value = .ok files := by
  intro file tree discovery
  have leaf : file.WellNamed := .file _
  have named : tree.root.WellNamed := by
    refine .directory (by decide +kernel) (List.forall_mem_singleton.2 ?_)
    refine .directory (by decide +kernel) (List.forall_mem_cons.2 ⟨?_, List.forall_mem_singleton.2 ?_⟩)
    · exact .directory (by decide +kernel) (List.forall_mem_singleton.2 leaf)
    · exact .directory (by decide +kernel) (List.forall_mem_cons.2 ⟨leaf, List.forall_mem_singleton.2 leaf⟩)
  have literal : ∀ extension ∈ discovery.extensions, Literal extension := by
    simp [discovery, Literal]
  have relative : Path.isAbsolute ⟨"./[*]//"⟩ = false := by decide +kernel
  obtain ⟨files, discovered, members, -, -, reordered, respelled⟩ :=
    @discovers_exactly tree named ⟨"./[*]//"⟩ relative (by decide +kernel) discovery literal
  have beneath : Beneath tree ⟨"./[*]//"⟩ ⟨"[*]/a.clj/c.clj"⟩ "c.clj" := by
    refine ⟨by decide +kernel, ["a.clj"], ?_, by decide +kernel⟩
    exact List.forall_mem_cons.2 ⟨by decide +kernel, List.forall_mem_singleton.2 (by decide +kernel)⟩
  have wanted : discovery.Wants "c.clj" := ⟨⟨"clj", by decide +kernel, by decide +kernel⟩, by decide +kernel⟩
  refine ⟨files, discovered, (members _).2 ⟨by decide +kernel, "c.clj", beneath, wanted⟩, fun member => ?_,
    reordered _ ?_, ?_⟩
  · obtain ⟨-, base, beneath, -, wanted⟩ := (members _).1 member
    have name : Path.fileName? ⟨"[*]/a.clj/user.clj"⟩ = some "user.clj" := by decide +kernel
    obtain rfl := Option.some.inj ((beneath.fileName? relative).symm.trans name)
    exact wanted List.mem_cons_self
  · intro extension
    simp [discovery, or_comm]
  · rw [respelled ⟨"[*]"⟩ (by decide +kernel) (by decide +kernel) (by decide +kernel)]
    exact discovered

end Discovery

end VarDoc
