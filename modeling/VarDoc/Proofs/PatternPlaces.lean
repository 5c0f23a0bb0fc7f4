import VarDoc.Proofs.LiteralPatterns
import VarDoc.Proofs.SpelledPaths

/-! Which places a pattern leads to. From the working directory the names of a root
lead along its plainest spelling, whatever wildcards are in them, and to what is there.
Below a place every entry at any depth is found, at the spelling that its names make;
the part for an extension keeps those whose names end in it. -/

set_option autoImplicit false

namespace VarDoc

def FileNode.IsName (name : String) : Prop :=
  name ≠ "" ∧ name ≠ "." ∧ name ≠ ".." ∧ '/' ∉ name.toList

instance (name : String) : Decidable (FileNode.IsName name) :=
  inferInstanceAs (Decidable (name ≠ "" ∧ name ≠ "." ∧ name ≠ ".." ∧ '/' ∉ name.toList))

inductive FileNode.WellNamed : FileNode → Prop where
  | file (content : ByteArray) : WellNamed (.file content)
  | directory {children : List (String × FileNode)} (names : ∀ entry ∈ children, IsName entry.1)
    (nodes : ∀ entry ∈ children, WellNamed entry.2) : WellNamed (.directory children)

namespace FileNode

theorem isName_iff_proper {name : String} : IsName name ↔ (Path.Component.name name).Proper := by
  have empty : name = "" ↔ name.toList = [] := String.toList_eq_nil_iff.symm
  have here : name = "." ↔ name.toList = ['.'] := by rw [← String.toList_inj]; simp
  have up : name = ".." ↔ name.toList = ['.', '.'] := by rw [← String.toList_inj]; simp
  rw [IsName, ne_eq, ne_eq, ne_eq, empty, here, up]
  change _ ↔ Path.component? name.toList = some (.name name) ∧ '/' ∉ name.toList
  unfold Path.component?
  by_cases blank : name.toList = [] ∨ name.toList = ['.']
  · rw [if_pos blank]
    exact iff_of_false (fun isName => blank.elim isName.1 isName.2.1) (fun made => absurd made.1 (by simp))
  · rw [if_neg blank]
    by_cases dots : name.toList = ['.', '.']
    · rw [if_pos dots]
      exact iff_of_false (fun isName => isName.2.2.1 dots) (fun made => absurd made.1 (by simp))
    · rw [if_neg dots, String.ofList_toList]
      obtain ⟨nonempty, elsewhere⟩ := not_or.1 blank
      exact ⟨fun isName => ⟨rfl, isName.2.2.2⟩, fun made => ⟨nonempty, elsewhere, dots, made.2⟩⟩

theorem WellNamed.child {node child : FileNode} {name : String} (named : node.WellNamed)
    (found : node.child? name = some child) : child.WellNamed := by
  cases named with
  | file => cases found
  | directory names nodes => exact nodes _ (mem_of_lookupEntry found)

theorem WellNamed.get? {node found : FileNode} {names : List String} (named : node.WellNamed)
    (there : node.get? names = some found) : found.WellNamed := by
  induction names generalizing node with
  | nil => exact Option.some.inj there ▸ named
  | cons name rest ih =>
    obtain ⟨child, first, later⟩ := Option.bind_eq_some_iff.1 there
    exact ih (named.child first) later

end FileNode

theorem FileTree.wellNamed_node {tree : FileTree} (named : tree.root.WellNamed) {path : Path}
    {node : FileNode} (found : tree.node path = .ok node) : node.WellNamed := by
  obtain ⟨entry, -, there⟩ := node_eq_ok_iff.1 found
  exact named.get? there

namespace Glob

open VarDoc.Path (spelled)

theorem mem_belowEntries {base : Path} {entries : List (String × FileNode)} {place : Place} :
    place ∈ Place.belowEntries base entries ↔
      ∃ entry ∈ entries, place = ⟨Place.childPath base entry.1, entry.2⟩ ∨
        place ∈ Place.below (Place.childPath base entry.1) entry.2 := by
  induction entries with
  | nil => simp [Place.belowEntries]
  | cons entry rest ih => simp [Place.belowEntries, ih, or_assoc]

section

variable {components : List Path.Component}

theorem childPath_name (proper : Path.AllProper components) {name : String}
    (isName : FileNode.IsName name) :
    Place.childPath (spelled components) name = spelled (components ++ [.name name]) :=
  @Path.childPath_spelled components proper (.name name) (FileNode.isName_iff_proper.1 isName)

/-- Below a place everything is found at its plain spelling. -/
theorem path_of_mem_below {node : FileNode} (named : node.WellNamed)
    (proper : Path.AllProper components) {place : Place}
    (member : place ∈ Place.below (spelled components) node) :
    ∃ names name, (∀ each ∈ names ++ [name], FileNode.IsName each) ∧
      place.path = spelled (components ++ (names ++ [name]).map .name) := by
  induction named generalizing components with
  | file => cases member
  | @directory children names _ ih =>
    obtain ⟨entry, among, here⟩ := mem_belowEntries.1 member
    have isName := names entry among
    have properName := FileNode.isName_iff_proper.1 isName
    rw [childPath_name proper isName] at here
    rcases here with rfl | below
    · exact ⟨[], entry.1, by simpa using isName, rfl⟩
    · obtain ⟨more, name, allNames, deeper⟩ := ih entry among (Path.proper_append proper properName) below
      exact ⟨entry.1 :: more, name, List.forall_mem_cons.2 ⟨isName, allNames⟩, by simp [deeper]⟩

theorem mem_children {node child : FileNode} {name : String} (proper : Path.AllProper components)
    (isName : FileNode.IsName name) (there : node.child? name = some child) :
    ⟨spelled (components ++ [.name name]), child⟩ ∈ Place.children ⟨spelled components, node⟩ := by
  cases node with
  | file => cases there
  | directory children =>
    exact List.mem_map.2 ⟨(name, child), mem_of_lookupEntry there,
      congrArg (Place.mk · child) (childPath_name proper isName)⟩

theorem mem_below_of_children {place : Place} {node : FileNode} {path : Path}
    (member : place ∈ Place.children ⟨path, node⟩) :
    place ∈ Place.below path node ∧
      ∀ deeper ∈ Place.below place.path place.node, deeper ∈ Place.below path node := by
  cases node with
  | file => cases member
  | directory children =>
    obtain ⟨entry, among, rfl⟩ := List.mem_map.1 member
    exact ⟨mem_belowEntries.2 ⟨entry, among, .inl rfl⟩,
      fun deeper below => mem_belowEntries.2 ⟨entry, among, .inr below⟩⟩

theorem mem_below {node found : FileNode} {name : String} {names : List String}
    (proper : Path.AllProper components)
    (isName : ∀ each ∈ name :: names, FileNode.IsName each)
    (there : node.get? (name :: names) = some found) :
    ⟨spelled (components ++ (name :: names).map .name), found⟩ ∈ Place.below (spelled components) node := by
  induction names generalizing node components name with
  | nil =>
    obtain ⟨child, first, last⟩ := Option.bind_eq_some_iff.1 there
    cases last
    exact (mem_below_of_children (mem_children proper (isName name List.mem_cons_self) first)).1
  | cons next rest ih =>
    obtain ⟨child, first, later⟩ := Option.bind_eq_some_iff.1 there
    obtain ⟨isFirst, isLater⟩ := List.forall_mem_cons.1 isName
    have properFirst := Path.proper_append proper (FileNode.isName_iff_proper.1 isFirst)
    have deeper := ih properFirst isLater later
    rw [List.append_assoc] at deeper
    exact (mem_below_of_children (mem_children proper isFirst first)).2 _ deeper

end

theorem place?_eq_some_iff {tree : FileTree} {path : Path} {place : Place} :
    place? tree path = some place ↔ ∃ node, tree.node path = .ok node ∧ place = ⟨path, node⟩ := by
  unfold place?
  cases tree.node path with
  | error => simp [Except.toOption]
  | ok node => simp [Except.toOption, eq_comm]

theorem ne_dot_of_wild {c : Char} (special : c ∈ wild) : c ≠ '.' := by
  rintro rfl
  exact absurd special (by decide)

theorem exists_name_of_wild {component : Path.Component} (proper : component.Proper) {c : Char}
    (character : c ∈ component.text.toList) (special : c ∈ wild) : ∃ name, component = .name name := by
  cases component with
  | root => exact absurd proper.1 (by decide)
  | here => exact absurd rfl proper.ne_here
  | up =>
    have dot : c = '.' := by simpa [Path.Component.text] using character
    exact absurd dot (ne_dot_of_wild special)
  | name text => exact ⟨text, rfl⟩

theorem name_spelled {front : List Path.Component} (proper : Path.AllProper front)
    {name : String} (named : (Path.Component.name name).Proper) {node : FileNode} :
    Place.name ⟨spelled (front ++ [.name name]), node⟩ = name := by
  rw [Place.name, Path.fileName?_spelled proper named]
  rfl

theorem dotPlaces_literal {tree : FileTree} {name : List Char} (special : ∃ c ∈ name, c ∈ wild)
    (place : Place) : dotPlaces tree (name.map literal) place = [] := by
  obtain ⟨c, member, escaped⟩ := special
  have refused : ["..", "."].filter (fun dots => accepts (name.map literal) dots.toList) = [] := by
    rw [List.filter_eq_nil_iff]
    intro dots dotted accepted
    rw [accepts_literals] at accepted
    rw [← accepted] at member
    have dot : c = '.' := by
      simp only [List.mem_cons, List.not_mem_nil, or_false] at dotted
      rcases dotted with rfl | rfl <;> simpa using member
    exact ne_dot_of_wild escaped dot
  rw [dotPlaces, refused]
  exact ite_self _

section

variable {tree : FileTree} {front components : List Path.Component} {rest : List Part} {found : Place}

section

variable {first : Path.Component} (properFront : Path.AllProper front) (proper : first.Proper)
include properFront proper

theorem of_mem_follow_literal (rootNamed : tree.root.WellNamed) {node : FileNode} (named : node.WellNamed)
    (member : found ∈ follow tree (Part.literal first.text.toList :: rest) ⟨spelled front, node⟩) :
    ∃ child : FileNode, child.WellNamed ∧ found ∈ follow tree rest ⟨spelled (front ++ [first]), child⟩ := by
  rcases Part.literal_cases first.text.toList with looked | ⟨compared, special⟩
  · rw [looked, follow, String.ofList_toList, Path.childPath_spelled properFront proper] at member
    cases there : place? tree (spelled (front ++ [first])) with
    | none =>
      rw [there] at member
      cases member
    | some place =>
      rw [there] at member
      obtain ⟨child, reached, rfl⟩ := place?_eq_some_iff.1 there
      exact ⟨child, FileTree.wellNamed_node rootNamed reached, member⟩
  · rw [compared, follow, dotPlaces_literal special, List.flatMap_nil, List.nil_append] at member
    obtain ⟨place, kept, later⟩ := List.mem_flatMap.1 member
    obtain ⟨among, accepted⟩ := List.mem_filter.1 kept
    cases named with
    | file => cases among
    | directory names nodes =>
      obtain ⟨entry, entryMember, made⟩ := List.mem_map.1 among
      have isName := names entry entryMember
      have properName := FileNode.isName_iff_proper.1 isName
      obtain rfl : place = ⟨spelled (front ++ [.name entry.1]), entry.2⟩ :=
        made.symm.trans (congrArg (Place.mk · entry.2) (childPath_name properFront isName))
      rw [accepts_literals, name_spelled properFront properName, String.toList_inj] at accepted
      obtain rfl : Path.Component.name entry.1 = first := properName.eq_of_text proper accepted
      exact ⟨entry.2, nodes entry entryMember, later⟩

theorem mem_follow_literal {node child : FileNode} (start : tree.node (spelled front) = .ok node)
    (there : tree.node (spelled (front ++ [first])) = .ok child)
    (member : found ∈ follow tree rest ⟨spelled (front ++ [first]), child⟩) :
    found ∈ follow tree (Part.literal first.text.toList :: rest) ⟨spelled front, node⟩ := by
  rcases Part.literal_cases first.text.toList with looked | ⟨compared, c, character, escaped⟩
  · rw [looked, follow, String.ofList_toList, Path.childPath_spelled properFront proper,
      place?_eq_some_iff.2 ⟨child, there, rfl⟩]
    exact member
  · obtain ⟨folder, foundFolder, -, inside⟩ := FileTree.node_spelled_append properFront proper there
    obtain rfl := Except.ok.inj (foundFolder.symm.trans start)
    obtain ⟨name, rfl⟩ := exists_name_of_wild proper character escaped
    have listed := mem_children properFront (FileNode.isName_iff_proper.2 proper) (inside name rfl)
    have accepted : accepts (name.toList.map literal)
        (Place.name ⟨spelled (front ++ [.name name]), child⟩).toList = true :=
      (accepts_literals _ _).2 (congrArg String.toList (name_spelled properFront proper))
    rw [compared, follow]
    exact List.mem_append_right _ (List.mem_flatMap.2 ⟨_, List.mem_filter.2 ⟨listed, accepted⟩, member⟩)

end

theorem of_mem_follow_names (rootNamed : tree.root.WellNamed) (properFront : Path.AllProper front)
    (proper : Path.AllProper components) {node : FileNode} (named : node.WellNamed)
    (member : found ∈ follow tree (components.map (fun each => Part.literal each.text.toList) ++ rest)
      ⟨spelled front, node⟩) :
    ∃ reached : FileNode, reached.WellNamed ∧
      found ∈ follow tree rest ⟨spelled (front ++ components), reached⟩ := by
  induction components generalizing front node with
  | nil => exact ⟨node, named, by simpa using member⟩
  | cons first more ih =>
    obtain ⟨properFirst, properMore⟩ := List.forall_mem_cons.1 proper
    obtain ⟨child, childNamed, later⟩ := of_mem_follow_literal properFront properFirst rootNamed named member
    obtain ⟨reached, reachedNamed, last⟩ :=
      ih (Path.proper_append properFront properFirst) properMore childNamed later
    exact ⟨reached, reachedNamed, by simpa using last⟩

theorem mem_follow_names (properFront : Path.AllProper front)
    (proper : Path.AllProper components) {node reached : FileNode}
    (start : tree.node (spelled front) = .ok node)
    (there : tree.node (spelled (front ++ components)) = .ok reached)
    (member : found ∈ follow tree rest ⟨spelled (front ++ components), reached⟩) :
    found ∈ follow tree (components.map (fun each => Part.literal each.text.toList) ++ rest)
      ⟨spelled front, node⟩ := by
  induction components generalizing front node with
  | nil =>
    rw [List.append_nil] at there member
    obtain rfl := Except.ok.inj (there.symm.trans start)
    exact member
  | cons first more ih =>
    obtain ⟨properFirst, properMore⟩ := List.forall_mem_cons.1 proper
    have properLonger := Path.proper_append properFront properFirst
    rw [← List.singleton_append, ← List.append_assoc] at there member
    obtain ⟨child, foundChild⟩ := FileTree.node_spelled_beginning properLonger properMore there
    exact mem_follow_literal properFront properFirst start foundChild
      (ih properLonger properMore foundChild there member)

end

/-- Without components the working directory is looked up once more. -/
theorem follow_here (tree : FileTree) (rest : List Part) (node : FileNode) :
    follow tree ((spelled []).parts.map Part.literal ++ rest) ⟨⟨"."⟩, node⟩ =
      (place? tree ⟨"."⟩).elim [] (follow tree rest) := by
  have parts : (spelled []).parts.map Part.literal = [.exactly "."] := rfl
  have again : Place.childPath ⟨"."⟩ "." = ⟨"."⟩ := by simp [Place.childPath, Path.same]
  rw [parts, List.singleton_append, follow, again]

section

variable {tree : FileTree} {components : List Path.Component} {rest : List Part} {found : Place}
  (proper : Path.AllProper components)
include proper

theorem of_mem_find (rootNamed : tree.root.WellNamed)
    (member : found ∈ Pattern.find tree ⟨false, (spelled components).parts.map Part.literal ++ rest, false⟩) :
    ∃ reached : FileNode, reached.WellNamed ∧ found ∈ follow tree rest ⟨spelled components, reached⟩ := by
  change found ∈ (place? tree ⟨"."⟩).elim [] _ at member
  cases there : place? tree ⟨"."⟩ with
  | none =>
    rw [there] at member
    cases member
  | some start =>
    rw [there, Option.elim_some] at member
    obtain ⟨node, reached, rfl⟩ := place?_eq_some_iff.1 there
    have named := FileTree.wellNamed_node rootNamed reached
    by_cases empty : components = []
    · subst empty
      rw [follow_here, there] at member
      exact ⟨node, named, member⟩
    · rw [Path.parts_spelled proper empty, List.map_map] at member
      exact of_mem_follow_names rootNamed (List.forall_mem_nil _) proper named member

theorem mem_find {reached : FileNode} (there : tree.node (spelled components) = .ok reached)
    (member : found ∈ follow tree rest ⟨spelled components, reached⟩) :
    found ∈ Pattern.find tree ⟨false, (spelled components).parts.map Part.literal ++ rest, false⟩ := by
  have properNone : Path.AllProper [] := List.forall_mem_nil _
  obtain ⟨node, start⟩ := FileTree.node_spelled_beginning properNone proper there
  have placed : place? tree ⟨"."⟩ = some ⟨⟨"."⟩, node⟩ := place?_eq_some_iff.2 ⟨node, start, rfl⟩
  change found ∈ (place? tree ⟨"."⟩).elim [] _
  rw [placed, Option.elim_some]
  by_cases empty : components = []
  · subst empty
    obtain rfl := Except.ok.inj (there.symm.trans start)
    rw [follow_here, placed]
    exact member
  · rw [Path.parts_spelled proper empty, List.map_map]
    exact mem_follow_names properNone proper start there member

end

theorem mem_follow_extension {tree : FileTree} {extension : List Char} {place found : Place} :
    found ∈ follow tree [.depth, .withExtension extension] place ↔
      found ∈ Place.below place.path place.node ∧ '.' :: extension <:+ found.name.toList := by
  have followed : follow tree [.depth, .withExtension extension] place =
      ((Place.below place.path place.node).filter fun child =>
        (Part.withExtension extension).accepts child.name).flatMap (follow tree []) := by
    rw [follow]
    exact fun depth => Part.noConfusion depth
  have accepted : (Part.withExtension extension).accepts found.name = true ↔
      '.' :: extension <:+ found.name.toList := accepts_ending _ _
  simp [followed, follow, accepted]

end Glob

end VarDoc
