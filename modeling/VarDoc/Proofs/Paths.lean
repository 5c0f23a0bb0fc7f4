import VarDoc.Proofs.FileTree

/-! Where paths lead. A joined path is followed through its first part and then
through its second; the path without its last component leads to the directory
that holds a file. -/

set_option autoImplicit false

namespace VarDoc

theorem splitSlashes_append_slash (first second : List Char) :
    splitSlashes (first ++ '/' :: second) = splitSlashes first ++ splitSlashes second := by
  induction first with
  | nil => simp [splitSlashes]
  | cons c rest ih =>
    rw [List.cons_append, splitSlashes, splitSlashes, ih]
    split
    · rfl
    · obtain ⟨part, parts, split⟩ := List.exists_cons_of_ne_nil (splitSlashes_ne_nil rest)
      simp [split]

theorem splitSlashes_of_unslashed {part : List Char} (unslashed : '/' ∉ part) :
    splitSlashes part = [part] := by
  induction part with
  | nil => rfl
  | cons c rest ih =>
    rw [List.mem_cons, not_or] at unslashed
    rw [splitSlashes, if_neg (Ne.symm unslashed.1), ih unslashed.2]

theorem unslashed_of_mem_splitSlashes {text part : List Char} (member : part ∈ splitSlashes text) :
    '/' ∉ part := by
  fun_induction splitSlashes text generalizing part with
  | case1 => simp_all
  | case2 rest ih =>
    rcases List.mem_cons.1 member with rfl | later
    · exact List.not_mem_nil
    · exact ih later
  | case3 c rest different first parts split ih =>
    rw [split] at ih
    rcases List.mem_cons.1 member with rfl | later
    · rw [List.mem_cons, not_or]
      exact ⟨Ne.symm different, ih List.mem_cons_self⟩
    · exact ih (List.mem_cons_of_mem _ later)
  | case4 c rest different split => exact absurd split (splitSlashes_ne_nil rest)

theorem splitSlashes_joinSlashes {parts : List (List Char)} (nonempty : parts ≠ [])
    (unslashed : ∀ part ∈ parts, '/' ∉ part) : splitSlashes (joinSlashes parts) = parts := by
  fun_induction joinSlashes parts with
  | case1 => contradiction
  | case2 part => exact splitSlashes_of_unslashed (unslashed part List.mem_cons_self)
  | case3 part parts more ih =>
    rw [splitSlashes_append_slash, splitSlashes_of_unslashed (unslashed part List.mem_cons_self),
      ih more fun other member => unslashed other (List.mem_cons_of_mem _ member),
      List.singleton_append]

theorem splitSlashes_append_unslashed (text : List Char) {ending : List Char}
    (unslashed : '/' ∉ ending) :
    ∃ front last, splitSlashes text = front ++ [last] ∧
      splitSlashes (text ++ ending) = front ++ [last ++ ending] := by
  induction text with
  | nil => exact ⟨[], [], rfl, by simpa using splitSlashes_of_unslashed unslashed⟩
  | cons c rest ih =>
    obtain ⟨front, last, split, splitLonger⟩ := ih
    rw [List.cons_append, splitSlashes, splitSlashes, split, splitLonger]
    by_cases slash : c = '/'
    · exact ⟨[] :: front, last, by simp [slash], by simp [slash]⟩
    · cases front with
      | nil => exact ⟨[], c :: last, by simp [slash], by simp [slash]⟩
      | cons part front => exact ⟨(c :: part) :: front, last, by simp [slash], by simp [slash]⟩

namespace Path

theorem exists_parts (path : Path) : ∃ first rest, path.parts = first :: rest :=
  List.exists_cons_of_ne_nil (splitSlashes_ne_nil path.text.toList)

theorem isAbsolute_iff {path : Path} {first : List Char} {rest : List (List Char)}
    (split : path.parts = first :: rest) : path.isAbsolute = true ↔ first = [] ∧ rest ≠ [] := by
  rw [isAbsolute, beq_iff_eq]
  unfold parts at split
  cases text : path.text.toList with
  | nil =>
    rw [text] at split
    obtain ⟨-, rfl⟩ := List.cons.inj split
    simp
  | cons c more =>
    rw [text, splitSlashes] at split
    obtain ⟨part, parts, later⟩ := List.exists_cons_of_ne_nil (splitSlashes_ne_nil more)
    rw [later] at split
    by_cases slash : c = '/'
    · rw [if_pos slash] at split
      obtain ⟨rfl, rfl⟩ := List.cons.inj split
      simp [slash]
    · rw [if_neg slash] at split
      obtain ⟨rfl, rfl⟩ := List.cons.inj split
      simp [slash]

theorem isAbsolute_append (text : String) {ending : String}
    (unslashed : ending.toList.head? ≠ some '/') :
    Path.isAbsolute ⟨text ++ ending⟩ = Path.isAbsolute ⟨text⟩ := by
  simp only [isAbsolute, String.toList_append]
  cases text.toList with
  | nil => simpa using unslashed
  | cons => rfl

theorem join_append (base : Path) (text : String) {ending : String}
    (unslashed : ending.toList.head? ≠ some '/') :
    Path.mk ((base.join ⟨text⟩).text ++ ending) = base.join ⟨text ++ ending⟩ := by
  unfold join
  rw [isAbsolute_append text unslashed]
  split
  · rfl
  · split
    · simp only [String.append_assoc]
    · simp only [String.append_assoc]

theorem parts_join (base : Path) {path : Path} (relative : path.isAbsolute = false) :
    ∃ front, (base.join path).parts = front ++ path.parts ∧
      (base.parts = front ∨ base.parts = front ++ [[]]) := by
  rw [join, if_neg (by simp [relative])]
  split
  next closed =>
    rw [Bool.or_eq_true, beq_iff_eq, String.isEmpty_iff] at closed
    rcases closed with empty | slash
    · exact ⟨[], by simp [parts, empty], .inr (by simp [parts, empty, splitSlashes])⟩
    · obtain ⟨text, ends⟩ := List.getLast?_eq_some_iff.1 slash
      refine ⟨splitSlashes text, ?_, .inr ?_⟩
      · simp only [parts, String.toList_append, ends, List.append_assoc, List.singleton_append,
          splitSlashes_append_slash]
      · rw [parts, ends, splitSlashes_append_slash]
        rfl
  next =>
    refine ⟨base.parts, ?_, .inl rfl⟩
    have slash : "/".toList = ['/'] := rfl
    simp only [parts, String.toList_append, slash, List.append_assoc, List.singleton_append,
      splitSlashes_append_slash]

theorem isAbsolute_join (base : Path) {path : Path} (relative : path.isAbsolute = false) :
    (base.join path).isAbsolute = base.isAbsolute := by
  rw [join, if_neg (by simp [relative])]
  split
  next closed =>
    simp only [isAbsolute, String.toList_append] at relative ⊢
    cases text : base.text.toList with
    | nil => simpa [text] using relative
    | cons => rfl
  next opened =>
    simp only [isAbsolute, String.toList_append]
    cases text : base.text.toList with
    | nil =>
      rw [String.toList_eq_nil_iff] at text
      simp [text] at opened
    | cons => rfl

theorem component?_eq_none_iff {part : List Char} :
    component? part = none ↔ part = [] ∨ part = ['.'] := by
  unfold component?
  split
  next blank => simpa using blank
  next named => split <;> simpa using named

theorem components_of_parts {path : Path} {first : List Char} {rest : List (List Char)}
    (split : path.parts = first :: rest) :
    path.components = leading first rest ++ rest.filterMap component? := by
  rw [components, split]

theorem root_mem_components {path : Path} : .root ∈ path.components ↔ path.isAbsolute = true := by
  obtain ⟨first, rest, split⟩ := path.exists_parts
  have later : .root ∉ rest.filterMap component? := by
    rw [List.mem_filterMap]
    rintro ⟨part, -, made⟩
    unfold component? at made
    split at made
    · contradiction
    · split at made <;> cases made
  rw [components_of_parts split, List.mem_append, isAbsolute_iff split, or_iff_left later, leading,
    component?]
  by_cases empty : first = []
  · cases rest <;> simp [empty]
  · by_cases here : first = ['.']
    · simp [here]
    · by_cases up : first = ['.', '.'] <;> simp [empty, here, up]

def Component.lead (trail : List String) : Component → List String
  | .name text => text :: trail
  | .up => trail.tail
  | .root | .here => trail

theorem foldl_lead_components {path : Path} (trail : List String) :
    path.components.foldl Component.lead trail =
      (path.parts.filterMap component?).foldl Component.lead trail := by
  obtain ⟨first, rest, split⟩ := path.exists_parts
  rw [components_of_parts split, split, List.foldl_append, List.filterMap_cons, leading]
  by_cases empty : first = []
  · cases rest <;> simp [empty, component?, Component.lead]
  · by_cases here : first = ['.']
    · simp [here, component?, Component.lead]
    · rw [if_neg empty, if_neg here]
      cases component? first <;> rfl

theorem parent?_of_single {path : Path} {part : List Char} (split : path.parts = [part])
    (nonempty : part ≠ []) : path.parent? = some ⟨""⟩ := by
  simp [parent?, split, nonempty]

/-- The parent loses the last component and the blank parts before it; where
that leaves nothing after the first slash, it is the root. -/
theorem parent?_of_concat {path : Path} {first last : List Char} {before : List (List Char)}
    (split : path.parts = first :: (before ++ [last])) (named : component? last ≠ none) :
    ∃ parent kept blanks, path.parent? = some parent ∧ before = kept ++ blanks ∧
      (∀ part ∈ blanks, component? part = none) ∧ parent.isAbsolute = path.isAbsolute ∧
      (parent.parts = first :: kept ∨ parent.parts = first :: kept ++ [[]]) := by
  let blank (part : List Char) : Bool := (component? part).isNone
  let kept := (before.reverse.dropWhile blank).reverse
  let blanks := (before.reverse.takeWhile blank).reverse
  have whole : before = kept ++ blanks := by
    rw [← List.reverse_append, List.takeWhile_append_dropWhile, List.reverse_reverse]
  have allBlank : ∀ part ∈ blanks, component? part = none := by
    intro part member
    have tested := List.all_eq_true.1 List.all_takeWhile part (List.mem_reverse.1 member)
    exact Option.isNone_iff_eq_none.1 tested
  have absolute : path.isAbsolute = true ↔ first = [] := by
    rw [isAbsolute_iff split]
    simp
  have notBlank : ¬ blank last = true := by simpa [blank] using named
  have parent : path.parent? = if first = [] ∧ kept = [] then some ⟨"/"⟩
      else some ⟨String.ofList (joinSlashes (first :: kept))⟩ := by
    rw [parent?, split]
    simp only [List.reverse_append, List.reverse_singleton, List.singleton_append]
    rw [List.dropWhile_cons_of_neg notBlank]
  by_cases top : first = [] ∧ kept = []
  · refine ⟨⟨"/"⟩, kept, blanks, by rw [parent, if_pos top], whole, allBlank, ?_, .inr ?_⟩
    · rw [absolute.2 top.1]
      rfl
    · rw [top.1, top.2]
      rfl
  · have unslashed : ∀ part ∈ first :: kept, '/' ∉ part := by
      intro part member
      apply unslashed_of_mem_splitSlashes
      change part ∈ path.parts
      rw [split, whole]
      rcases List.mem_cons.1 member with rfl | later
      · exact List.mem_cons_self
      · simp [later]
    have parts : (Path.mk (String.ofList (joinSlashes (first :: kept)))).parts = first :: kept := by
      rw [Path.parts, String.toList_ofList]
      exact splitSlashes_joinSlashes (List.cons_ne_nil _ _) unslashed
    refine ⟨_, kept, blanks, by rw [parent, if_neg top], whole, allBlank, ?_, .inl parts⟩
    rw [Bool.eq_iff_iff, isAbsolute_iff parts, absolute]
    exact ⟨fun both => both.1, fun empty => ⟨empty, fun none => top ⟨empty, none⟩⟩⟩

end Path

namespace FileTree

variable {tree : FileTree}

def walk (tree : FileTree) (path : Path) : Except FileError (List String) :=
  tree.follow (tree.startOf path) path.parts

theorem resolve_eq_ok_iff {path : Path} {entry : List String} :
    tree.resolve path = .ok entry ↔ checkText path = .ok () ∧ tree.walk path = .ok entry.reverse := by
  rw [resolve, walk]
  cases checkText path with
  | error => simp
  | ok =>
    cases tree.follow (tree.startOf path) path.parts with
    | error => simp [Except.map]
    | ok trail => simp [Except.map, List.reverse_eq_iff]

theorem follow_empty_part (trail : List String) {parts : List (List Char)} (more : parts ≠ []) :
    tree.follow trail ([] :: parts) = tree.follow trail parts := by
  obtain ⟨part, rest, rfl⟩ := List.exists_cons_of_ne_nil more
  rw [follow_cons, follow_cons, enter, enter]
  -- Whether this place is a directory is asked once more for the next part.
  cases found : tree.root.get? trail.reverse with
  | none => rfl
  | some node =>
    cases directory : node.isDirectory with
    | false => simp [directory, Except.bind]
    | true => simp [directory, Except.bind, follow_cons, enter, found]

theorem follow_here {trail : List String}
    (directory : (tree.root.get? trail.reverse).any FileNode.isDirectory = true) :
    tree.follow trail [[]] = .ok trail := by
  have entered : tree.enter trail [] = .ok trail := enter_eq_ok_iff.2 ⟨directory, by simp⟩
  rw [follow_cons, entered]
  rfl

theorem follow_components {trail reached : List String} {parts : List (List Char)}
    (followed : tree.follow trail parts = .ok reached) :
    reached = (parts.filterMap Path.component?).foldl Path.Component.lead trail := by
  induction parts generalizing trail with
  | nil =>
    cases followed
    rfl
  | cons part rest ih =>
    rw [follow_cons] at followed
    cases entered : tree.enter trail part with
    | error => rw [entered] at followed; contradiction
    | ok next =>
      rw [entered] at followed
      have leads := (enter_eq_ok_iff.1 entered).2
      rw [ih followed, List.filterMap_cons, Path.component?]
      by_cases blank : part = [] ∨ part = ['.']
      · rw [if_pos blank] at leads ⊢
        rw [leads]
      · rw [if_neg blank] at leads ⊢
        by_cases up : part = ['.', '.']
        · rw [if_pos up] at leads ⊢
          rw [← leads]
          rfl
        · rw [if_neg up] at leads ⊢
          rw [← leads.2.2]
          rfl

theorem walk_components {path : Path} {trail : List String} (walked : tree.walk path = .ok trail) :
    trail = path.components.foldl Path.Component.lead (tree.startOf path) :=
  (follow_components walked).trans (Path.foldl_lead_components _).symm

/-- Two spellings with the same components lead to the same entry, if they
lead anywhere. -/
theorem resolve_of_components {first second : Path} (same : first.components = second.components)
    {entry other : List String} (resolved : tree.resolve first = .ok entry)
    (resolvedOther : tree.resolve second = .ok other) : entry = other := by
  have absolute : first.isAbsolute = second.isAbsolute := by
    rw [Bool.eq_iff_iff, ← Path.root_mem_components, ← Path.root_mem_components, same]
  have leads := walk_components (resolve_eq_ok_iff.1 resolved).2
  have leadsOther := walk_components (resolve_eq_ok_iff.1 resolvedOther).2
  rw [startOf, absolute, same, ← startOf, ← leadsOther] at leads
  exact List.reverse_inj.1 leads

theorem walk_join (base : Path) {path : Path} (relative : path.isAbsolute = false) :
    tree.walk (base.join path) =
      (tree.walk base).bind fun trail => tree.follow trail path.parts := by
  have start : tree.startOf (base.join path) = tree.startOf base := by
    rw [startOf, startOf, Path.isAbsolute_join base relative]
  obtain ⟨front, joined, same | empty⟩ := base.parts_join relative
  · rw [walk, walk, start, joined, same, follow_append]
  · have more : path.parts ≠ [] := splitSlashes_ne_nil _
    rw [walk, walk, start, joined, empty, follow_append, follow_append]
    cases tree.follow (tree.startOf base) front with
    | error => rfl
    | ok trail =>
      change tree.follow trail path.parts =
        (tree.follow trail [[]]).bind fun reached => tree.follow reached path.parts
      rw [← follow_append, List.singleton_append, follow_empty_part trail more]

theorem enter_of_follow {trail reached : List String} {part : List Char}
    (followed : tree.follow trail [part] = .ok reached) : tree.enter trail part = .ok reached := by
  rw [follow_cons] at followed
  cases entered : tree.enter trail part with
  | error => rw [entered] at followed; contradiction
  | ok next =>
    rw [entered] at followed
    exact followed

theorem enter_file {trail reached : List String} {part : List Char} {content : ByteArray}
    (entered : tree.enter trail part = .ok reached)
    (file : tree.root.get? reached.reverse = some (.file content)) :
    Path.component? part = some (.name (String.ofList part)) ∧
      reached = String.ofList part :: trail := by
  obtain ⟨directory, leads⟩ := enter_eq_ok_iff.1 entered
  by_cases blank : part = [] ∨ part = ['.']
  · rw [if_pos blank] at leads
    rw [leads, file] at directory
    contradiction
  by_cases up : part = ['.', '.']
  · rw [if_neg blank, if_pos up] at leads
    cases trail with
    | nil =>
      rw [← leads] at file
      rw [List.tail_nil] at file
      rw [file] at directory
      contradiction
    | cons name outer =>
      rw [← leads, List.tail_cons] at file
      rw [List.reverse_cons, FileNode.get?_append, file] at directory
      contradiction
  · rw [if_neg blank, if_neg up] at leads
    exact ⟨by rw [Path.component?, if_neg blank, if_neg up], leads.2.2.symm⟩

theorem follow_blank {trail reached : List String} {blanks : List (List Char)}
    (blank : ∀ part ∈ blanks, Path.component? part = none)
    (followed : tree.follow trail blanks = .ok reached) : trail = reached := by
  induction blanks generalizing trail with
  | nil => exact Except.ok.inj followed
  | cons part rest ih =>
    rw [follow_cons] at followed
    cases entered : tree.enter trail part with
    | error => rw [entered] at followed; contradiction
    | ok next =>
      rw [entered] at followed
      have stays := (enter_eq_ok_iff.1 entered).2
      rw [if_pos (Path.component?_eq_none_iff.1 (blank part List.mem_cons_self))] at stays
      rw [stays]
      exact ih (fun other member => blank other (List.mem_cons_of_mem _ member)) followed

theorem follow_append_eq_ok {trail reached : List String} {first second : List (List Char)}
    (followed : tree.follow trail (first ++ second) = .ok reached) :
    ∃ middle, tree.follow trail first = .ok middle ∧ tree.follow middle second = .ok reached := by
  rw [follow_append] at followed
  cases begun : tree.follow trail first with
  | error => rw [begun] at followed; contradiction
  | ok middle => exact ⟨middle, rfl, by rw [begun] at followed; exact followed⟩

/-- The parent of the path of a file leads to the directory that holds it. -/
theorem walk_parent {path : Path} {trail : List String} {content : ByteArray}
    (walked : tree.walk path = .ok trail)
    (file : tree.root.get? trail.reverse = some (.file content)) :
    ∃ parent name folder, path.parent? = some parent ∧ trail = name :: folder ∧
      tree.walk parent = .ok folder := by
  obtain ⟨first, rest, split⟩ := path.exists_parts
  rw [walk, split] at walked
  rcases List.eq_nil_or_concat rest with rfl | ⟨before, last, rfl⟩
  · have entered := enter_of_follow walked
    obtain ⟨named, rfl⟩ := enter_file entered file
    have nonempty : first ≠ [] := by
      rintro rfl
      contradiction
    have relative : path.isAbsolute = false := by
      rw [← Bool.not_eq_true, Path.isAbsolute_iff split]
      exact fun both => nonempty both.1
    have start : tree.startOf ⟨""⟩ = tree.startOf path := by
      rw [startOf, startOf, relative]
      rfl
    refine ⟨⟨""⟩, _, _, Path.parent?_of_single split nonempty, rfl, ?_⟩
    rw [walk, start]
    exact follow_here (enter_eq_ok_iff.1 entered).1
  · rw [List.concat_eq_append] at split
    rw [List.concat_eq_append, ← List.cons_append] at walked
    obtain ⟨folder, begun, ended⟩ := follow_append_eq_ok walked
    have entered := enter_of_follow ended
    obtain ⟨named, rfl⟩ := enter_file entered file
    obtain ⟨parent, kept, blanks, isParent, rfl, blank, absolute, parts⟩ :=
      Path.parent?_of_concat split (by rw [named]; exact Option.some_ne_none _)
    have start : tree.startOf parent = tree.startOf path := by rw [startOf, startOf, absolute]
    rw [← List.cons_append] at begun
    obtain ⟨folder, reached, stays⟩ := follow_append_eq_ok begun
    obtain rfl := follow_blank blank stays
    refine ⟨parent, _, folder, isParent, rfl, ?_⟩
    rw [walk, start]
    rcases parts with parts | parts
    · rw [parts, reached]
    · rw [parts, follow_append, reached]
      exact follow_here (enter_eq_ok_iff.1 entered).1

end FileTree

end VarDoc
