import VarDoc.FileTree
import VarDoc.Proofs.Dict

/-! What is written to a file is found under its path. Writing changes no
directory on the way, so that a path leads to where it was written. -/

set_option autoImplicit false

namespace VarDoc

namespace FileNode

theorem get?_append (node : FileNode) (names : List String) (name : String) :
    node.get? (names ++ [name]) = (node.get? names).bind (child? name) := by
  induction names generalizing node with
  | nil =>
    cases found : node.child? name with
    | none => simp [get?, found]
    | some child => simp [get?, found]
  | cons first rest ih =>
    cases found : node.child? first with
    | none => simp [get?, found]
    | some child => simp [get?, found, ih]

mutual

def fileEntries : FileNode → List (List String)
  | .file _ => [[]]
  | .directory children => childEntries children

def childEntries : List (String × FileNode) → List (List String)
  | [] => []
  | (name, child) :: rest => child.fileEntries.map (name :: ·) ++ childEntries rest

end

theorem mem_childEntries {children : List (String × FileNode)} {name : String} {child : FileNode}
    (member : (name, child) ∈ children) {names : List String} (file : names ∈ child.fileEntries) :
    name :: names ∈ childEntries children := by
  induction children with
  | nil => contradiction
  | cons first rest ih =>
    rw [childEntries, List.mem_append]
    rcases List.mem_cons.1 member with rfl | later
    · exact .inl (List.mem_map_of_mem file)
    · exact .inr (ih later)

theorem mem_fileEntries {node : FileNode} {names : List String} {content : ByteArray}
    (file : node.get? names = some (.file content)) : names ∈ node.fileEntries := by
  induction names generalizing node with
  | nil =>
    obtain rfl := Option.some.inj file
    rw [fileEntries]
    exact List.mem_singleton_self _
  | cons name rest ih =>
    cases node with
    | file => contradiction
    | directory children =>
      obtain ⟨child, found, below⟩ := Option.bind_eq_some_iff.1 file
      rw [fileEntries]
      exact mem_childEntries (mem_of_lookupEntry found) (ih below)

/-- Directories are still directories, and what was there is still there. -/
structure Grows (old new : FileNode) : Prop where
  directories : ∀ names, (old.get? names).any isDirectory = true →
    (new.get? names).any isDirectory = true
  entries : ∀ names, (old.get? names).isSome = true → (new.get? names).isSome = true

theorem Grows.refl (node : FileNode) : node.Grows node := ⟨fun _ => id, fun _ => id⟩

theorem Grows.directory {old new : List (String × FileNode)}
    (each : ∀ name child, lookupEntry name old = some child →
      ∃ grown, lookupEntry name new = some grown ∧ child.Grows grown) :
    (FileNode.directory old).Grows (.directory new) := by
  constructor
  · intro names found
    cases names with
    | nil => rfl
    | cons name rest =>
      cases known : lookupEntry name old with
      | none => simp [get?, child?, known] at found
      | some child =>
        obtain ⟨grown, still, grows⟩ := each name child known
        simp only [get?, child?, known, still, Option.bind_some] at found ⊢
        exact grows.directories rest found
  · intro names found
    cases names with
    | nil => rfl
    | cons name rest =>
      cases known : lookupEntry name old with
      | none => simp [get?, child?, known] at found
      | some child =>
        obtain ⟨grown, still, grows⟩ := each name child known
        simp only [get?, child?, known, still, Option.bind_some] at found ⊢
        exact grows.entries rest found

/-- Putting a node where no directory stands takes nothing away. -/
theorem put_grows {node : FileNode} (new : FileNode) {names : List String}
    (free : (node.get? names).any isDirectory = false) : node.Grows (node.put new names) := by
  induction names generalizing node with
  | nil =>
    cases node with
    | directory children => contradiction
    | file content =>
      constructor
      · intro names found
        cases names <;> contradiction
      · intro names found
        cases names with
        | nil => rfl
        | cons => contradiction
  | cons first rest ih =>
    cases node with
    | file content => exact .refl _
    | directory children =>
      apply Grows.directory
      intro name child known
      by_cases same : name = first
      · subst same
        simp only [known, Option.getD_some]
        refine ⟨_, lookupEntry_insertEntry_self _ _ _, ih ?_⟩
        simpa [get?, child?, known] using free
      · exact ⟨child, by rw [lookupEntry_insertEntry_of_ne _ _ same, known], .refl child⟩

theorem get?_put {node : FileNode} (new : FileNode) {names : List String} (name : String)
    (parent : (node.get? names).any isDirectory = true) :
    (node.put new (names ++ [name])).get? (names ++ [name]) = some new := by
  induction names generalizing node with
  | nil =>
    cases node with
    | file content => contradiction
    | directory children =>
      simp [put, get?, child?, lookupEntry_insertEntry_self]
  | cons first rest ih =>
    cases node with
    | file content => contradiction
    | directory children =>
      cases known : lookupEntry first children with
      | none => simp [get?, child?, known] at parent
      | some child =>
        have below : (child.get? rest).any isDirectory = true := by
          simpa [get?, child?, known] using parent
        simp [put, get?, child?, known, lookupEntry_insertEntry_self, ih below]

end FileNode

namespace FileTree

def enter (tree : FileTree) (trail : List String) (part : List Char) :
    Except FileError (List String) :=
  match tree.root.get? trail.reverse with
  | none => .error .notFound
  | some node =>
    if !node.isDirectory then .error .notDirectory
    else if part = [] ∨ part = ['.'] then .ok trail
    else if part = ['.', '.'] then .ok trail.tail
    else if nameLimit < Text.width part then .error .nameTooLong
    else if (node.child? (String.ofList part)).isNone then .error .notFound
    else .ok (String.ofList part :: trail)

theorem follow_cons (tree : FileTree) (trail : List String) (part : List Char)
    (rest : List (List Char)) :
    tree.follow trail (part :: rest) =
      (tree.enter trail part).bind fun reached => tree.follow reached rest := by
  rw [follow, enter]
  cases tree.root.get? trail.reverse with
  | none => rfl
  | some node =>
    simp only
    split
    · rfl
    split
    · rfl
    split
    · rfl
    split
    · rfl
    split <;> rfl

theorem follow_append (tree : FileTree) (trail : List String) (first second : List (List Char)) :
    tree.follow trail (first ++ second) =
      (tree.follow trail first).bind fun reached => tree.follow reached second := by
  induction first generalizing trail with
  | nil => rfl
  | cons part rest ih =>
    rw [List.cons_append, follow_cons, follow_cons]
    cases tree.enter trail part with
    | error error => rfl
    | ok reached => exact ih reached

theorem enter_eq_ok_iff {tree : FileTree} {trail reached : List String} {part : List Char} :
    tree.enter trail part = .ok reached ↔
      (tree.root.get? trail.reverse).any FileNode.isDirectory = true ∧
        if part = [] ∨ part = ['.'] then trail = reached
        else if part = ['.', '.'] then trail.tail = reached
        else ¬nameLimit < Text.width part ∧
          (tree.root.get? (trail.reverse ++ [String.ofList part])).isSome = true ∧
          String.ofList part :: trail = reached := by
  rw [enter, FileNode.get?_append]
  cases tree.root.get? trail.reverse with
  | none => simp
  | some node =>
    cases directory : node.isDirectory with
    | false => simp [directory]
    | true =>
      simp only [directory, Bool.not_true, Bool.false_eq_true, if_false, Option.any_some, true_and,
        Option.bind_some]
      split
      · rw [Except.ok.injEq]
      split
      · rw [Except.ok.injEq]
      split
      next long => simp [long]
      next short => cases node.child? (String.ofList part) <;> simp [short]

theorem enter_grows {tree grown : FileTree} (grows : tree.root.Grows grown.root)
    {trail reached : List String} {part : List Char}
    (entered : tree.enter trail part = .ok reached) : grown.enter trail part = .ok reached := by
  rw [enter_eq_ok_iff] at entered ⊢
  refine ⟨grows.directories _ entered.1, ?_⟩
  have leads := entered.2
  by_cases here : part = [] ∨ part = ['.']
  · rwa [if_pos here] at leads ⊢
  by_cases up : part = ['.', '.']
  · rwa [if_neg here, if_pos up] at leads ⊢
  · rw [if_neg here, if_neg up] at leads ⊢
    exact ⟨leads.1, grows.entries _ leads.2.1, leads.2.2⟩

theorem follow_grows {tree grown : FileTree} (grows : tree.root.Grows grown.root)
    {trail reached : List String} {parts : List (List Char)}
    (followed : tree.follow trail parts = .ok reached) : grown.follow trail parts = .ok reached := by
  induction parts generalizing trail with
  | nil => exact followed
  | cons part rest ih =>
    rw [follow_cons] at followed ⊢
    cases entered : tree.enter trail part with
    | error error => rw [entered] at followed; contradiction
    | ok next =>
      rw [entered] at followed
      rw [enter_grows grows entered]
      exact ih followed

theorem newEntry_name {tree : FileTree} {path : Path} {names : List String} {name : String}
    (entry : tree.newEntry path = .ok (names, some name))
    (closed : path.parts.getLast? ≠ some []) :
    checkText path = .ok () ∧ ∃ before last trail, path.parts = before ++ [last] ∧
      tree.follow (tree.startOf path) before = .ok trail ∧ names = trail.reverse ∧
      name = String.ofList last ∧ last ≠ [] ∧ last ≠ ['.'] ∧ last ≠ ['.', '.'] ∧
      ¬nameLimit < Text.width last ∧
      (tree.root.get? trail.reverse).any FileNode.isDirectory = true := by
  unfold newEntry at entry
  split at entry
  next => contradiction
  next checked =>
  refine ⟨checked, ?_⟩
  cases backwards : path.parts.reverse with
  | nil => simp [backwards] at entry
  | cons last before =>
    have split : path.parts = before.reverse ++ [last] := by
      rw [← List.reverse_reverse path.parts, backwards, List.reverse_cons]
    have nonempty : last ≠ [] := by
      rintro rfl
      exact closed (by rw [split, List.getLast?_concat])
    rw [backwards, List.dropWhile_cons_of_neg (by simpa using nonempty)] at entry
    simp only at entry
    split at entry
    next => contradiction
    next trail followed =>
    split at entry
    next => contradiction
    next node found =>
    split at entry
    next => contradiction
    next directory =>
    split at entry
    next => simp at entry
    next named =>
    split at entry
    next => contradiction
    next short =>
    obtain ⟨rfl, same⟩ := Prod.mk.inj (Except.ok.inj entry)
    obtain rfl := Option.some.inj same
    exact ⟨before.reverse, last, trail, split, followed, rfl, rfl, nonempty,
      fun here => named (.inl here), fun up => named (.inr up), short, by simpa [found] using directory⟩

/-- What is written is found where it was written. -/
theorem node_of_write {tree written : FileTree} {path : Path} {content : ByteArray}
    (wrote : tree.write path content = .ok written) (closed : path.parts.getLast? ≠ some []) :
    written.node path = .ok (.file content) := by
  unfold write at wrote
  split at wrote
  next => contradiction
  next => contradiction
  next names name entry =>
  obtain ⟨checked, before, last, trail, split, followed, rfl, rfl, nonempty, notHere, notUp, short,
    directory⟩ := newEntry_name entry closed
  split at wrote
  next => contradiction
  next free =>
  have root : written.root =
      tree.root.put (.file content) (trail.reverse ++ [String.ofList last]) := by
    rw [← Except.ok.inj wrote]
    rfl
  have start : written.startOf path = tree.startOf path := by
    rw [← Except.ok.inj wrote]
    rfl
  have notDirectory :
      (tree.root.get? (trail.reverse ++ [String.ofList last])).any FileNode.isDirectory = false := by
    cases found : tree.root.get? (trail.reverse ++ [String.ofList last]) with
    | none => rfl
    | some node =>
      cases node with
      | file => rfl
      | directory children => exact absurd found (free children)
  have grows : tree.root.Grows written.root := by
    rw [root]
    exact FileNode.put_grows _ notDirectory
  have found : written.root.get? (trail.reverse ++ [String.ofList last]) = some (.file content) := by
    rw [root]
    exact FileNode.get?_put _ _ directory
  have entered : written.enter trail last = .ok (String.ofList last :: trail) := by
    rw [enter_eq_ok_iff, if_neg (not_or.2 ⟨nonempty, notHere⟩), if_neg notUp]
    exact ⟨grows.directories _ directory, short, by rw [found]; rfl, rfl⟩
  have reached : written.follow (written.startOf path) path.parts = .ok (String.ofList last :: trail) := by
    rw [start, split, follow_append, follow_grows grows followed]
    change written.follow trail [last] = _
    rw [follow_cons, entered]
    rfl
  rw [node, resolve, checked, reached]
  simp only [Except.map, List.reverse_cons, found]

end FileTree

theorem splitSlashes_ne_nil (text : List Char) : splitSlashes text ≠ [] := by
  fun_cases splitSlashes text <;> exact List.cons_ne_nil _ _

theorem getLast?_splitSlashes {text : List Char} (last : text.getLast? ≠ some '/')
    (nonempty : text ≠ []) : (splitSlashes text).getLast? ≠ some [] := by
  fun_induction splitSlashes text with
  | case1 => contradiction
  | case2 rest ih =>
    cases rest with
    | nil => simp at last
    | cons second more =>
      rw [List.getLast?_cons_cons] at last
      obtain ⟨part, others, parts⟩ :=
        List.exists_cons_of_ne_nil (splitSlashes_ne_nil (second :: more))
      have later := ih last (List.cons_ne_nil _ _)
      rw [parts] at later ⊢
      rwa [List.getLast?_cons_cons]
  | case3 first rest different part parts split ih =>
    cases parts with
    | nil => simp
    | cons next others =>
      rw [List.getLast?_cons_cons]
      cases rest with
      | nil => simp [splitSlashes] at split
      | cons second more =>
        rw [List.getLast?_cons_cons] at last
        have later := ih last (List.cons_ne_nil _ _)
        rwa [split, List.getLast?_cons_cons] at later
  | case4 first rest different split => exact absurd split (splitSlashes_ne_nil rest)

end VarDoc
