import VarDoc.Namespace.Loading
import VarDoc.Proofs.FileTree
import VarDoc.Proofs.UnplacedReading

/-! File trees that differ only in how their source texts are laid out. Paths
lead to the same places in both, and a file that can be read in one can be read
in the other, to the same forms but for where they stand. -/

set_option autoImplicit false

namespace VarDoc

/-! What loading looks at in forms does not depend on where they stand. -/

theorem declaredSymbol?_unplaced (form : Form) :
    declaredSymbol? form.unplaced = declaredSymbol? form := by
  unfold declaredSymbol?
  rw [Form.list?_unplaced]
  cases form.list? with
  | none => rfl
  | some items =>
    simp only [Option.map_some, Option.bind_some, List.getElem?_map]
    cases items[1]? with
    | none => rfl
    | some target => exact target.symbol?_unplaced

theorem loadResources?_unplaced (form : Form) :
    loadResources? form.unplaced = loadResources? form := by
  have strings (items : List Form) :
      (items.map Form.unplaced).tail.filterMap Form.string? = items.tail.filterMap Form.string? := by
    rw [← List.map_tail, List.filterMap_map]
    exact congrArg (List.filterMap · items.tail) (funext Form.string?_unplaced)
  unfold loadResources?
  rw [Form.isCallTo_unplaced, Form.isCallTo_unplaced, Form.list?_unplaced, Option.map_map]
  simp only [Function.comp_def, strings]

theorem switchedNamespace?_unplaced (forms : List Form) :
    switchedNamespace? (forms.map Form.unplaced) = switchedNamespace? forms := by
  unfold switchedNamespace?
  rw [List.find?_map, Option.bind_map]
  simp only [Function.comp_def, Form.isCallTo_unplaced]
  congr 1
  funext form
  simp only [Form.list?_unplaced]
  cases form.list? with
  | none => rfl
  | some items =>
    simp only [Option.map_some, Option.bind_some, List.getElem?_map]
    cases items[1]? with
    | none => rfl
    | some target =>
      cases target with
      | marked mark inner =>
        cases mark with
        | sigil sigil =>
          cases sigil with
          | quote => exact inner.symbol?_unplaced
          | _ => rfl
        | tag => rfl
      | atom leaf => cases leaf <;> rfl
      | group | map => rfl

section
variable (view : LexError → LexError)

def LexedAlike (text other : String) : Prop :=
  (lex text.toList).map (LexItem.unplaced view) = (lex other.toList).map (LexItem.unplaced view)

instance (text other : String) : Decidable (LexedAlike view text other) :=
  inferInstanceAs (Decidable (_ = _))

/-- Nodes of one kind; files whose texts are lexed alike, or that do not
differ. What is below a directory is not looked at. -/
inductive FileNode.Alike : FileNode → FileNode → Prop where
  | directory (children others : List (String × FileNode)) :
      Alike (.directory children) (.directory others)
  | same (content : ByteArray) : Alike (.file content) (.file content)
  | reformatted {content changed : ByteArray} {text other : String}
      (decodes : String.fromUTF8? content = some text)
      (decodesChanged : String.fromUTF8? changed = some other) (alike : LexedAlike view text other) :
      Alike (.file content) (.file changed)

/-- The same places in both trees, and what stands there is alike. -/
structure FileTree.Reformatted (tree other : FileTree) : Prop where
  workingDirectory : tree.workingDirectory = other.workingDirectory
  nodes : ∀ names, Option.Rel (FileNode.Alike view) (tree.root.get? names) (other.root.get? names)

def LoadError.unplaced : LoadError → LoadError
  | .malformed path error => .malformed path (error.unplaced view)
  | error => error

end

variable {view : LexError → LexError}

theorem FileNode.Alike.isDirectory {node other : FileNode} (alike : node.Alike view other) :
    node.isDirectory = other.isDirectory := by
  cases alike <;> rfl

theorem fromUTF8?_toUTF8 (text : String) : String.fromUTF8? text.toUTF8 = some text :=
  dif_pos text.isValidUTF8

def FileTree.flat (files : List (String × String)) : FileTree where
  root := .directory (files.map fun file => (file.1, .file file.2.toUTF8))
  workingDirectory := []

theorem FileTree.flat_reformatted (files : List (String × String × String))
    (alike : ∀ file ∈ files, LexedAlike view file.2.1 file.2.2) :
    (flat (files.map fun file => (file.1, file.2.1))).Reformatted view
      (flat (files.map fun file => (file.1, file.2.2))) := by
  refine ⟨rfl, fun names => ?_⟩
  cases names with
  | nil => exact .some (.directory _ _)
  | cons name rest =>
    simp only [flat, FileNode.get?, FileNode.child?, List.map_map]
    induction files with
    | nil => exact .none
    | cons file further ih =>
      obtain ⟨first, others⟩ := List.forall_mem_cons.1 alike
      simp only [List.map_cons, Function.comp_apply, lookupEntry_cons]
      split
      · cases rest with
        | nil =>
          exact .some (.reformatted (fromUTF8?_toUTF8 _) (fromUTF8?_toUTF8 _) first)
        | cons => exact .none
      · exact ih others

theorem isNone_of_rel {α : Type} {relation : α → α → Prop} {first second : Option α}
    (related : Option.Rel relation first second) : first.isNone = second.isNone := by
  cases related <;> rfl

theorem declaredNameIn_unplaced (path : Path) (outcomes : List (Except ReadError Form)) :
    declaredNameIn path (outcomes.map (exceptBoth (ReadError.unplaced view) Form.unplaced)) =
      exceptBoth (LoadError.unplaced view) id (declaredNameIn path outcomes) := by
  induction outcomes with
  | nil => rfl
  | cons outcome rest ih =>
    cases outcome with
    | error error => rfl
    | ok form =>
      simp only [List.map_cons, exceptBoth, declaredNameIn, Form.isCallTo_unplaced,
        declaredSymbol?_unplaced]
      split
      · cases declaredSymbol? form <;> rfl
      · exact ih

namespace FileTree.Reformatted

variable {tree other : FileTree} (reformatted : tree.Reformatted view other)
include reformatted

theorem enter_eq (trail : List String) (part : List Char) :
    tree.enter trail part = other.enter trail part := by
  have here := reformatted.nodes trail.reverse
  have below := isNone_of_rel (reformatted.nodes (trail.reverse ++ [String.ofList part]))
  rw [FileNode.get?_append, FileNode.get?_append] at below
  unfold enter
  generalize tree.root.get? trail.reverse = found, other.root.get? trail.reverse = found'
    at here below
  cases here with
  | none => rfl
  | some alike =>
    simp only [Option.bind_some] at below
    simp only [alike.isDirectory, below]

theorem follow_eq (trail : List String) (parts : List (List Char)) :
    tree.follow trail parts = other.follow trail parts := by
  induction parts generalizing trail with
  | nil => rfl
  | cons part rest ih =>
    rw [follow_cons, follow_cons, reformatted.enter_eq]
    exact congrArg (Except.bind _) (funext ih)

theorem resolve_eq (path : Path) : tree.resolve path = other.resolve path := by
  rw [resolve, resolve, startOf, startOf, reformatted.workingDirectory, reformatted.follow_eq]

/-- A path leads to nothing in both trees, or to nodes that are alike. -/
theorem node_cases (path : Path) :
    (∃ error, tree.node path = .error error ∧ other.node path = .error error) ∨
      ∃ found found', tree.node path = .ok found ∧ other.node path = .ok found' ∧
        found.Alike view found' := by
  unfold node
  rw [reformatted.resolve_eq]
  cases other.resolve path with
  | error error => exact .inl ⟨error, rfl, rfl⟩
  | ok names =>
    have there := reformatted.nodes names
    dsimp only
    generalize tree.root.get? names = found, other.root.get? names = found' at there
    cases there with
    | none => exact .inl ⟨.notFound, rfl, rfl⟩
    | some alike => exact .inr ⟨_, _, rfl, rfl, alike⟩

theorem isFile_eq (path : Path) : tree.isFile path = other.isFile path := by
  unfold isFile
  rcases reformatted.node_cases path with ⟨error, found, found'⟩ | ⟨_, _, found, found', alike⟩
  · rw [found, found']
  · rw [found, found']
    cases alike <;> rfl

theorem readText_cases (path : Path) :
    (∃ error, tree.readText path = .error error ∧ other.readText path = .error error) ∨
      ∃ text text', tree.readText path = .ok text ∧ other.readText path = .ok text' ∧
        LexedAlike view text text' := by
  unfold readText read
  rcases reformatted.node_cases path with ⟨error, found, found'⟩ | ⟨_, _, found, found', alike⟩
  · rw [found, found']
    exact .inl ⟨error, rfl, rfl⟩
  · rw [found, found']
    cases alike with
    | directory => exact .inl ⟨.isDirectory, rfl, rfl⟩
    | same content =>
      dsimp only
      cases String.fromUTF8? content with
      | none => exact .inl ⟨.notText, rfl, rfl⟩
      | some text => exact .inr ⟨text, text, rfl, rfl, rfl⟩
    | reformatted decodes decodesChanged lexed =>
      dsimp only
      rw [decodes, decodesChanged]
      exact .inr ⟨_, _, rfl, rfl, lexed⟩

theorem declaredName_eq (features : Features) (path : Path) :
    exceptBoth (LoadError.unplaced view) id (declaredName tree features path) =
      exceptBoth (LoadError.unplaced view) id (declaredName other features path) := by
  unfold declaredName
  rcases reformatted.readText_cases path with ⟨error, read, read'⟩ | ⟨text, text', read, read', alike⟩
  · rw [read, read']
  · rw [read, read']
    dsimp only
    rw [← declaredNameIn_unplaced, ← declaredNameIn_unplaced, readEach_unplaced features alike]

end FileTree.Reformatted

def Loading.inTree (loading : Loading) (tree : FileTree) : Loading := { loading with tree }

namespace Loading

variable {loading : Loading} {tree : FileTree} (reformatted : loading.tree.Reformatted view tree)
include reformatted

theorem find?_inTree (origin : Path) (resource : String) :
    (loading.inTree tree).find? origin resource = loading.find? origin resource := by
  have files : tree.isFile = loading.tree.isFile :=
    funext fun path => (reformatted.isFile_eq path).symm
  exact congrArg (List.find? · (loading.candidates origin resource)) files

theorem openFile_inTree (path : Path) :
    exceptBoth (LoadError.unplaced view) (fun opened => opened.2.map Form.unplaced)
        ((loading.inTree tree).openFile path) =
      exceptBoth (LoadError.unplaced view) (fun opened => opened.2.map Form.unplaced)
        (loading.openFile path) := by
  unfold openFile
  rcases reformatted.readText_cases path with ⟨error, read, read'⟩ | ⟨text, text', read, read', alike⟩
  · rw [read, show (loading.inTree tree).tree.readText path = .error error from read']
  · rw [read, show (loading.inTree tree).tree.readText path = .ok text' from read']
    simp only [inTree]
    rcases exceptBoth_cases (readAll_unplaced loading.features alike) with
      ⟨error, error', failed, failed', same⟩ | ⟨forms, forms', opened, opened', same⟩
    · rw [failed, failed']
      exact congrArg (fun error => Except.error (LoadError.malformed path error)) same.symm
    · rw [opened, opened']
      exact congrArg Except.ok same.symm

end Loading

end VarDoc
