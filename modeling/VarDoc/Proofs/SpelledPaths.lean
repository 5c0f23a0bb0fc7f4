import VarDoc.Discovery
import VarDoc.Proofs.LoadResolution

/-! The plainest spelling of a relative path. It has the components of the path
with single slashes between them, or is a single dot where there are none. Cleaning
a root gives this spelling, listing a directory extends it by a component, and where
it leads, each of its beginnings leads to a directory. -/

set_option autoImplicit false

namespace VarDoc

namespace Path

/-- A component that stands for itself wherever it stands: two dots, or a name. -/
def Component.Proper (component : Component) : Prop :=
  component? component.text.toList = some component ∧ '/' ∉ component.text.toList

abbrev AllProper (components : List Component) : Prop := ∀ component ∈ components, component.Proper

theorem Component.Proper.eq_of_text {left right : Component} (proper : left.Proper)
    (alsoProper : right.Proper) (same : left.text = right.text) : left = right :=
  Option.some.inj (proper.1.symm.trans (same ▸ alsoProper.1))

theorem component?_text {part : List Char} {component : Component}
    (made : component? part = some component) : component.text.toList = part := by
  unfold component? at made
  split at made
  · contradiction
  · split at made
    next up =>
      cases made
      exact up.symm
    next =>
      cases made
      exact String.toList_ofList

theorem proper_of_component? {part : List Char} {component : Component} (unslashed : '/' ∉ part)
    (made : component? part = some component) : component.Proper := by
  have text := component?_text made
  exact ⟨by rw [text, made], by rwa [text]⟩

theorem Component.ne_here_of_made {part : List Char} {component : Component}
    (made : component? part = some component) : component ≠ .here := by
  rintro rfl
  have text := component?_text made
  rw [← text] at made
  cases made

theorem Component.Proper.ne_here {component : Component} (proper : component.Proper) :
    component ≠ .here := ne_here_of_made proper.1

theorem filter_here_filterMap (parts : List (List Char)) :
    (parts.filterMap component?).filter (· != .here) = parts.filterMap component? := by
  rw [List.filter_eq_self]
  intro component member
  obtain ⟨part, -, made⟩ := List.mem_filterMap.1 member
  exact bne_iff_ne.2 (Component.ne_here_of_made made)

theorem withoutHere_eq {path : Path} (relative : path.isAbsolute = false) :
    path.withoutHere = path.parts.filterMap component? := by
  obtain ⟨first, rest, split⟩ := path.exists_parts
  rw [← Bool.not_eq_true, isAbsolute_iff split] at relative
  rw [withoutHere, components_of_parts split, List.filter_append, filter_here_filterMap, split, leading,
    List.filterMap_cons]
  by_cases empty : first = []
  · cases rest with
    | nil => simp [empty, component?]
    | cons => exact absurd ⟨empty, List.cons_ne_nil _ _⟩ relative
  · by_cases here : first = ['.']
    · simp [here, component?]
    · have alone := filter_here_filterMap [first]
      rw [if_neg empty, if_neg here]
      cases made : component? first with
      | none => rfl
      | some component =>
        rw [List.filterMap_cons, made] at alone
        exact congrArg (· ++ rest.filterMap component?) alone

theorem proper_withoutHere {path : Path} (relative : path.isAbsolute = false) :
    AllProper path.withoutHere := by
  intro component member
  rw [withoutHere_eq relative] at member
  obtain ⟨part, among, made⟩ := List.mem_filterMap.1 member
  exact proper_of_component? (unslashed_of_mem_splitSlashes among) made

theorem joinSlashes_append {parts : List (List Char)} (nonempty : parts ≠ []) (last : List Char) :
    joinSlashes (parts ++ [last]) = joinSlashes parts ++ '/' :: last := by
  induction parts with
  | nil => contradiction
  | cons part rest ih =>
    cases rest with
    | nil => rfl
    | cons next more =>
      change part ++ '/' :: joinSlashes (next :: more ++ [last]) =
        (part ++ '/' :: joinSlashes (next :: more)) ++ '/' :: last
      rw [ih (List.cons_ne_nil _ _), List.append_assoc, List.cons_append]

theorem toList_joinText (components : List Component) :
    (joinText components).toList = joinSlashes (components.map (·.text.toList)) := by
  rw [joinText, String.toList_intercalate, List.map_map]
  induction components with
  | nil => rfl
  | cons first rest ih =>
    cases rest with
    | nil => simp [List.intercalate, joinSlashes]
    | cons next more =>
      change first.text.toList ++ ("/".toList ++ List.intercalate _ ((next :: more).map _)) =
        first.text.toList ++ '/' :: joinSlashes ((next :: more).map _)
      rw [ih]
      rfl

theorem joinText_singleton (component : Component) : joinText [component] = component.text := by
  rw [← String.toList_inj, toList_joinText]
  rfl

theorem joinText_append {components : List Component} (nonempty : components ≠ []) (last : Component) :
    joinText (components ++ [last]) = joinText components ++ "/" ++ last.text := by
  have mapped : components.map (·.text.toList) ≠ [] := by simpa using nonempty
  rw [← String.toList_inj, String.toList_append, String.toList_append, toList_joinText, toList_joinText,
    List.map_append, List.map_singleton, joinSlashes_append mapped, List.append_assoc]
  rfl

def spelled : List Component → Path
  | [] => ⟨"."⟩
  | first :: rest => ⟨joinText (first :: rest)⟩

theorem spelled_of_ne_nil {components : List Component} (nonempty : components ≠ []) :
    spelled components = ⟨joinText components⟩ := by
  obtain ⟨first, rest, rfl⟩ := List.exists_cons_of_ne_nil nonempty
  rfl

section

variable {components : List Component} (proper : AllProper components)
include proper

theorem parts_spelled (nonempty : components ≠ []) :
    (spelled components).parts = components.map (·.text.toList) := by
  have mapped : components.map (·.text.toList) ≠ [] := by simpa using nonempty
  rw [spelled_of_ne_nil nonempty, parts, toList_joinText, splitSlashes_joinSlashes mapped]
  intro part member
  obtain ⟨component, among, rfl⟩ := List.mem_map.1 member
  exact (proper component among).2

theorem filterMap_component? : (components.map (·.text.toList)).filterMap component? = components := by
  induction components with
  | nil => rfl
  | cons first rest ih =>
    rw [List.map_cons, List.filterMap_cons, (proper first List.mem_cons_self).1,
      ih fun component member => proper component (List.mem_cons_of_mem _ member)]

theorem components_spelled (nonempty : components ≠ []) : (spelled components).components = components := by
  have split := parts_spelled proper nonempty
  obtain ⟨first, rest, rfl⟩ := List.exists_cons_of_ne_nil nonempty
  rw [List.map_cons] at split
  obtain ⟨made, -⟩ := proper first List.mem_cons_self
  have blank : ¬(first.text.toList = [] ∨ first.text.toList = ['.']) := by
    rw [← component?_eq_none_iff, made]
    exact Option.some_ne_none first
  have later := filterMap_component? fun component member => proper component (List.mem_cons_of_mem _ member)
  rw [components_of_parts split, leading, if_neg (not_or.1 blank).1, if_neg (not_or.1 blank).2, made, later]
  rfl

theorem joinText_open (nonempty : components ≠ []) : joinText components ≠ "" ∧
    (joinText components).toList.getLast? ≠ some '/' := by
  rcases List.eq_nil_or_concat components with rfl | ⟨front, last, rfl⟩
  · contradiction
  · obtain ⟨made, unslashed⟩ := proper last (by simp)
    have named : last.text.toList ≠ [] := by
      intro empty
      rw [empty] at made
      cases made
    obtain ⟨before, text⟩ : ∃ before, (joinText (front ++ [last])).toList = before ++ last.text.toList := by
      by_cases alone : front = []
      · exact ⟨[], by rw [alone, List.nil_append, joinText_singleton]; rfl⟩
      · exact ⟨_, by rw [joinText_append alone, String.toList_append]⟩
    rw [List.concat_eq_append, ne_eq, ← String.toList_eq_nil_iff, text]
    refine ⟨by simp [named], fun ends => ?_⟩
    obtain ⟨c, rest, split⟩ := List.exists_cons_of_ne_nil named
    rw [split, List.getLast?_append, List.getLast?_cons, Option.some_or, ← List.getLast?_cons,
      ← split] at ends
    exact unslashed (List.mem_of_getLast? ends)

theorem text_spelled_ne_empty : (spelled components).text ≠ "" := by
  by_cases empty : components = []
  · rw [empty]
    decide
  · rw [spelled_of_ne_nil empty]
    exact (joinText_open proper empty).1

theorem isAbsolute_spelled : (spelled components).isAbsolute = false := by
  by_cases empty : components = []
  · rw [empty]
    rfl
  · rw [← Bool.not_eq_true, ← root_mem_components, components_spelled proper empty]
    exact fun member => absurd (proper _ member).1 (by decide)

theorem join_spelled (nonempty : components ≠ []) {last : Component} (properLast : last.Proper) :
    (spelled components).join ⟨last.text⟩ = spelled (components ++ [last]) := by
  have relative : Path.isAbsolute ⟨last.text⟩ = false := by
    rw [isAbsolute, beq_eq_false_iff_ne]
    exact fun absolute => properLast.2 (List.mem_of_head? absolute)
  obtain ⟨text, ends⟩ := joinText_open proper nonempty
  rw [join, relative, spelled_of_ne_nil nonempty, spelled_of_ne_nil (by simp), joinText_append nonempty]
  simp [text, ends]

theorem childPath_spelled {last : Component} (properLast : last.Proper) :
    Glob.Place.childPath (spelled components) last.text = spelled (components ++ [last]) := by
  by_cases empty : components = []
  · subst empty
    rw [List.nil_append, spelled_of_ne_nil (List.cons_ne_nil _ _), joinText_singleton]
    rfl
  · have elsewhere : (spelled components).same ⟨"."⟩ = false := by
      rw [same, components_spelled proper empty, beq_eq_false_iff_ne]
      rintro rfl
      exact (proper .here (List.mem_singleton_self _)).ne_here rfl
    rw [Glob.Place.childPath, elsewhere, ← join_spelled proper empty properLast]
    rfl

theorem proper_append {last : Component} (properLast : last.Proper) :
    AllProper (components ++ [last]) :=
  List.forall_mem_append.2 ⟨proper, List.forall_mem_singleton.2 properLast⟩

theorem foldl_join_spelled {more : List Component} (properMore : AllProper more)
    (nonempty : components ≠ []) :
    more.foldl (fun path component => path.join ⟨component.text⟩) (spelled components) =
      spelled (components ++ more) := by
  induction more generalizing components with
  | nil => rw [List.append_nil, List.foldl_nil]
  | cons first rest ih =>
    obtain ⟨properFirst, properRest⟩ := List.forall_mem_cons.1 properMore
    rw [List.foldl_cons, join_spelled proper nonempty properFirst,
      ih (proper_append proper properFirst) properRest (by simp), List.append_assoc, List.singleton_append]

theorem fileName?_spelled {name : String} (named : (Component.name name).Proper) :
    (spelled (components ++ [.name name])).fileName? = some name := by
  rw [fileName?, components_spelled (proper_append proper named) (by simp), List.getLast?_concat]

end

/-- A cleaned root is spelled plainly. -/
theorem cleanRoot_eq_spelled {root : Path} (relative : root.isAbsolute = false) :
    Discovery.cleanRoot root = spelled root.withoutHere := by
  have proper := proper_withoutHere relative
  unfold Discovery.cleanRoot
  cases split : root.withoutHere with
  | nil => rfl
  | cons first rest =>
    rw [split] at proper
    obtain ⟨properFirst, properRest⟩ := List.forall_mem_cons.1 proper
    -- Joined to the empty path the first component stays alone, without a slash before it.
    have begun : Path.join ⟨""⟩ ⟨first.text⟩ = spelled [first] := by
      rw [join, spelled_of_ne_nil (List.cons_ne_nil _ _), joinText_singleton]
      simp
    change rest.foldl _ (Path.join ⟨""⟩ ⟨first.text⟩) = _
    rw [begun]
    exact foldl_join_spelled (List.forall_mem_singleton.2 properFirst) properRest (List.cons_ne_nil _ _)

end Path

namespace FileTree

variable {tree : FileTree}

theorem node_eq_ok_iff {path : Path} {node : FileNode} :
    tree.node path = .ok node ↔
      ∃ entry, tree.resolve path = .ok entry ∧ tree.root.get? entry = some node := by
  unfold FileTree.node
  cases tree.resolve path with
  | error => simp
  | ok entry => cases found : tree.root.get? entry <;> simp [found]

section

variable {components : List Path.Component} (proper : Path.AllProper components)
include proper

theorem walk_spelled (nonempty : components ≠ []) : tree.walk (.spelled components) =
    tree.follow tree.workingDirectory.reverse (components.map (·.text.toList)) := by
  rw [walk, startOf, Path.isAbsolute_spelled proper, Path.parts_spelled proper nonempty]
  rfl

theorem checkText_spelled {last : Path.Component}
    (checked : checkText (.spelled (components ++ [last])) = .ok ()) :
    checkText (.spelled components) = .ok () := by
  by_cases empty : components = []
  · rw [empty]
    rfl
  · obtain ⟨noNul, -, short⟩ := checkText_eq_ok_iff.1 checked
    rw [Path.spelled_of_ne_nil (by simp), Path.joinText_append empty] at noNul short
    simp only [Path.size, String.toList_append, Text.width_append, List.mem_append, not_or] at noNul short
    rw [Path.spelled_of_ne_nil empty]
    refine checkText_eq_ok_iff.2 ⟨noNul.1.1, (Path.joinText_open proper empty).1, ?_⟩
    simp only [Path.size]
    omega

theorem node_spelled_append {last : Path.Component} (properLast : last.Proper) {node : FileNode}
    (found : tree.node (.spelled (components ++ [last])) = .ok node) :
    ∃ folder, tree.node (.spelled components) = .ok folder ∧ folder.isDirectory = true ∧
      ∀ name, last = .name name → folder.child? name = some node := by
  obtain ⟨entry, resolved, there⟩ := node_eq_ok_iff.1 found
  obtain ⟨checked, walked⟩ := resolve_eq_ok_iff.1 resolved
  rw [walk_spelled (Path.proper_append proper properLast) (by simp), List.map_append] at walked
  obtain ⟨trail, begun, ended⟩ := follow_append_eq_ok walked
  have entered : tree.enter trail last.text.toList = .ok entry.reverse := enter_of_follow ended
  obtain ⟨directory, leads⟩ := enter_eq_ok_iff.1 entered
  obtain ⟨folder, holds, isDirectory⟩ := (Option.any_eq_true _ _).1 directory
  have walkedFolder : tree.walk (.spelled components) = .ok trail := by
    by_cases empty : components = []
    · subst empty
      cases begun
      have here : tree.enter tree.workingDirectory.reverse ['.'] = .ok tree.workingDirectory.reverse :=
        enter_eq_ok_iff.2 ⟨directory, rfl⟩
      change tree.follow tree.workingDirectory.reverse [['.']] = _
      rw [follow_cons, here]
      rfl
    · rw [walk_spelled proper empty, begun]
  refine ⟨folder, node_eq_ok_iff.2 ⟨trail.reverse, ?_, holds⟩, isDirectory, ?_⟩
  · exact resolve_eq_ok_iff.2 ⟨checkText_spelled proper checked, by rw [walkedFolder, List.reverse_reverse]⟩
  · rintro name rfl
    have made : Path.component? name.toList = some (.name name) := properLast.1
    have blank : ¬(name.toList = [] ∨ name.toList = ['.']) := by
      rw [← Path.component?_eq_none_iff, made]
      exact Option.some_ne_none _
    have up : name.toList ≠ ['.', '.'] := by
      intro dots
      rw [dots] at made
      cases made
    rw [Path.Component.text, if_neg blank, if_neg up, String.ofList_toList, ← List.reverse_eq_iff,
      List.reverse_cons] at leads
    rw [← leads.2.2, FileNode.get?_append, holds] at there
    exact there

theorem node_spelled_names {names : List String} (named : ∀ name ∈ names, (Path.Component.name name).Proper)
    {node : FileNode} (found : tree.node (.spelled (components ++ names.map .name)) = .ok node) :
    ∃ folder, tree.node (.spelled components) = .ok folder ∧ folder.get? names = some node := by
  induction names generalizing components with
  | nil => exact ⟨node, by simpa using found, rfl⟩
  | cons name rest ih =>
    obtain ⟨properName, properRest⟩ := List.forall_mem_cons.1 named
    rw [List.map_cons, ← List.singleton_append, ← List.append_assoc] at found
    obtain ⟨inner, foundInner, get⟩ := ih (Path.proper_append proper properName) properRest found
    obtain ⟨folder, foundFolder, -, child⟩ := node_spelled_append proper properName foundInner
    exact ⟨folder, foundFolder, Option.bind_eq_some_iff.2 ⟨inner, child name rfl, get⟩⟩

/-- Every beginning of a plain spelling that leads somewhere leads somewhere. -/
theorem node_spelled_beginning {more : List Path.Component} (properMore : Path.AllProper more)
    {node : FileNode} (found : tree.node (.spelled (components ++ more)) = .ok node) :
    ∃ folder, tree.node (.spelled components) = .ok folder := by
  induction more generalizing components with
  | nil => exact ⟨node, by simpa using found⟩
  | cons first rest ih =>
    obtain ⟨properFirst, properRest⟩ := List.forall_mem_cons.1 properMore
    rw [← List.singleton_append, ← List.append_assoc] at found
    obtain ⟨inner, foundInner⟩ := ih (Path.proper_append proper properFirst) properRest found
    obtain ⟨folder, foundFolder, -⟩ := node_spelled_append proper properFirst foundInner
    exact ⟨folder, foundFolder⟩

end

theorem follow_solid {trail reached : List String} {parts : List (List Char)}
    (followed : tree.follow trail parts = .ok reached) :
    tree.follow trail ((parts.filterMap Path.component?).map (·.text.toList)) = .ok reached := by
  induction parts generalizing trail with
  | nil => exact followed
  | cons part rest ih =>
    rw [← List.singleton_append] at followed
    obtain ⟨middle, begun, ended⟩ := follow_append_eq_ok followed
    rw [List.filterMap_cons]
    cases made : Path.component? part with
    | none =>
      obtain rfl := follow_blank (List.forall_mem_singleton.2 made) begun
      exact ih ended
    | some component =>
      rw [List.map_cons, Path.component?_text made, follow_cons, enter_of_follow begun]
      exact ih ended

theorem follow_of_solid {trail reached : List String} {parts : List (List Char)}
    (directory : (tree.root.get? reached.reverse).any FileNode.isDirectory = true)
    (followed : tree.follow trail ((parts.filterMap Path.component?).map (·.text.toList)) = .ok reached) :
    tree.follow trail parts = .ok reached := by
  induction parts generalizing trail with
  | nil => exact followed
  | cons part rest ih =>
    rw [List.filterMap_cons] at followed
    cases made : Path.component? part with
    | none =>
      rw [made] at followed
      -- An empty part or a dot needs a directory. Where nothing follows this is the one
      -- that is reached in the end; otherwise the next part was looked up in it.
      have inside : (tree.root.get? trail.reverse).any FileNode.isDirectory = true := by
        cases solid : (rest.filterMap Path.component?).map (·.text.toList) with
        | nil =>
          rw [solid] at followed
          cases followed
          exact directory
        | cons next more =>
          rw [solid, ← List.singleton_append] at followed
          obtain ⟨middle, begun, -⟩ := follow_append_eq_ok followed
          exact (enter_eq_ok_iff.1 (enter_of_follow begun)).1
      have stays : tree.enter trail part = .ok trail :=
        enter_eq_ok_iff.2 ⟨inside, by rw [if_pos (Path.component?_eq_none_iff.1 made)]⟩
      rw [follow_cons, stays]
      exact ih followed
    | some component =>
      rw [made, List.map_cons, Path.component?_text made, follow_cons] at followed
      rw [follow_cons]
      cases entered : tree.enter trail part with
      | error => rw [entered] at followed; contradiction
      | ok next =>
        rw [entered] at followed
        exact ih followed

/-- A directory is found under every spelling of its path. -/
theorem isDirectory_of_respelled {path other : Path} (relative : path.isAbsolute = false)
    (alsoRelative : other.isAbsolute = false) (same : other.withoutHere = path.withoutHere)
    (checked : checkText other = .ok ()) (there : tree.isDirectory path = true) :
    tree.isDirectory other = true := by
  have found : ∃ children, tree.node path = .ok (.directory children) := by
    unfold isDirectory at there
    split at there
    next children found => exact ⟨children, found⟩
    next => contradiction
  obtain ⟨children, found⟩ := found
  obtain ⟨entry, resolved, holds⟩ := node_eq_ok_iff.1 found
  have walked := (resolve_eq_ok_iff.1 resolved).2
  have start : tree.startOf other = tree.startOf path := by rw [startOf, startOf, relative, alsoRelative]
  have solid := follow_solid walked
  rw [← Path.withoutHere_eq relative, ← same, Path.withoutHere_eq alsoRelative, ← start] at solid
  have directory : (tree.root.get? entry.reverse.reverse).any FileNode.isDirectory = true := by
    rw [List.reverse_reverse, holds]
    rfl
  have alsoFound : tree.node other = .ok (.directory children) :=
    node_eq_ok_iff.2 ⟨entry, resolve_eq_ok_iff.2 ⟨checked, follow_of_solid directory solid⟩, holds⟩
  rw [isDirectory, alsoFound]

end FileTree

end VarDoc
