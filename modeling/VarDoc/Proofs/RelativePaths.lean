import Mathlib.Logic.Relation
import VarDoc.Proofs.InternedNames
import VarDoc.Proofs.PlainPaths
import VarDoc.Proofs.SpelledPaths

/-! Paths seen from a root. A path that is joined to a root has the components of the
root and then its own, so that seen from the root it is its own components again,
however root and path are spelled. The text of these components tells them, and files
below one root are therefore told apart by what is recorded of them. -/

set_option autoImplicit false

namespace VarDoc

theorem Definition.file_of_mem_ofForm {site : Site} {form : Form} {definition : Definition}
    (member : definition ∈ ofForm site form) : definition.2.get? "file" = some (.text site.file) := by
  have recorded (made : Definition) (named : String × Form) (interns : Interns site made named) :
      made.2.get? "file" = some (.text site.file) ∧ Interns site made named := by
    obtain ⟨given, metadata⟩ := interns.2
    rw [metadata]
    exact ⟨(site.identity_identify named.1 named.2.span given).file, interns⟩
  have each := (interns_ofForm site form).imp recorded
  exact ((List.forall₂_and_left _ _).1 each).1 definition member

namespace Path

def OpensPart (front : List Char) : Prop := front = [] ∨ front.getLast? = some '/'

def ClosesPart (back : List Char) : Prop := back = [] ∨ back.head? = some '/'

/-- One slash or one `.` component more in the text of a path. -/
inductive Pads : List Char → List Char → Prop
  | slash (front back : List Char) : Pads (front ++ '/' :: back) (front ++ '/' :: '/' :: back)
  | lastSlash {text : List Char} (nonempty : text ≠ []) : Pads text (text ++ ['/'])
  | dot {front back : List Char} (opens : OpensPart front) (closes : ClosesPart back) :
      Pads (front ++ back) (front ++ '.' :: back)
  | dotSlash {front : List Char} (opens : OpensPart front) (back : List Char) :
      Pads (front ++ back) (front ++ '.' :: '/' :: back)

/-- The path with slashes repeated and `.` components added anywhere, which is relative
or absolute as it was. -/
def Padded (path padded : Path) : Prop :=
  Relation.ReflTransGen Pads path.text.toList padded.text.toList ∧ padded.isAbsolute = path.isAbsolute

theorem OpensPart.exists_parts {front : List Char} (opens : OpensPart front) :
    ∃ parts, ∀ text, splitSlashes (front ++ text) = parts ++ splitSlashes text := by
  rcases opens with rfl | slash
  · exact ⟨[], fun text => rfl⟩
  · obtain ⟨before, rfl⟩ := List.getLast?_eq_some_iff.1 slash
    refine ⟨splitSlashes before, fun text => ?_⟩
    rw [List.append_assoc, List.singleton_append, splitSlashes_append_slash]

theorem ClosesPart.exists_parts {back : List Char} (closes : ClosesPart back) :
    ∃ parts, ∀ part, '/' ∉ part → splitSlashes (part ++ back) = part :: parts := by
  rcases closes with rfl | slash
  · exact ⟨[], fun part unslashed => by rw [List.append_nil, splitSlashes_of_unslashed unslashed]⟩
  · obtain ⟨rest, rfl⟩ := List.head?_eq_some_iff.1 slash
    refine ⟨splitSlashes rest, fun part unslashed => ?_⟩
    rw [splitSlashes_append_slash, splitSlashes_of_unslashed unslashed, List.singleton_append]

theorem Pads.filterMap_component? {text padded : List Char} (pads : Pads text padded) :
    (splitSlashes padded).filterMap component? = (splitSlashes text).filterMap component? := by
  have empty : component? [] = none := rfl
  have here : component? ['.'] = none := rfl
  cases pads with
  | slash front back =>
    have split := splitSlashes_append_slash [] back
    rw [List.nil_append] at split
    rw [splitSlashes_append_slash, splitSlashes_append_slash, split]
    simp [splitSlashes, empty]
  | lastSlash nonempty =>
    rw [splitSlashes_append_slash]
    simp [splitSlashes, empty]
  | dot opens closes =>
    obtain ⟨before, front⟩ := opens.exists_parts
    obtain ⟨after, back⟩ := closes.exists_parts
    have alone := back [] (by simp)
    have dotted := back ['.'] (by decide)
    rw [List.nil_append] at alone
    rw [List.singleton_append] at dotted
    rw [front, front, alone, dotted]
    simp [empty, here]
  | dotSlash opens back =>
    obtain ⟨before, front⟩ := opens.exists_parts
    have dotted := splitSlashes_append_slash ['.'] back
    rw [List.singleton_append] at dotted
    rw [front, front, dotted, splitSlashes_of_unslashed (by decide)]
    simp [here]

theorem filterMap_component?_of_additions {text padded : List Char}
    (additions : Relation.ReflTransGen Pads text padded) :
    (splitSlashes padded).filterMap component? = (splitSlashes text).filterMap component? := by
  induction additions with
  | refl => rfl
  | tail _ last ih => exact last.filterMap_component?.trans ih

/-- The components of a path are those of its parts, behind the root where it is absolute. -/
theorem withoutHere_eq_append (path : Path) :
    path.withoutHere = (if path.isAbsolute then [.root] else []) ++ path.parts.filterMap component? := by
  cases absolute : path.isAbsolute with
  | false => exact withoutHere_eq absolute
  | true =>
    obtain ⟨first, rest, split⟩ := path.exists_parts
    obtain ⟨rfl, more⟩ := (isAbsolute_iff split).1 absolute
    have root : leading [] rest = [.root] := by
      rw [leading, if_pos rfl, if_neg (by simpa using more)]
    rw [withoutHere, components_of_parts split, root, List.filter_append, filter_here_filterMap, split]
    rfl

theorem Padded.withoutHere {path padded : Path} (pads : path.Padded padded) :
    padded.withoutHere = path.withoutHere := by
  obtain ⟨additions, absolute⟩ := pads
  rw [withoutHere_eq_append, withoutHere_eq_append, absolute, parts, parts,
    filterMap_component?_of_additions additions]

theorem withoutHere_join (base : Path) {path : Path} (relative : path.isAbsolute = false) :
    (base.join path).withoutHere = base.withoutHere ++ path.withoutHere := by
  have empty : component? [] = none := rfl
  obtain ⟨front, joined, whole⟩ := base.parts_join relative
  -- A slash at the end of the base is not doubled, which costs an empty part.
  have solid : base.parts.filterMap component? = front.filterMap component? := by
    rcases whole with whole | whole
    · rw [whole]
    · rw [whole, List.filterMap_append]
      simp [empty]
  rw [withoutHere_eq_append, withoutHere_eq_append base, withoutHere_eq relative,
    isAbsolute_join base relative, joined, List.filterMap_append, solid, List.append_assoc]

theorem Plain.withoutHere {path : Path} (plain : path.Plain) : path.withoutHere = path.components := by
  rw [Path.withoutHere, List.filter_eq_self]
  intro component member
  rw [Component.eq_name (plain component member)]
  rfl

theorem relativeTo_of_append {root path : Path} {rest : List Component}
    (split : path.withoutHere = root.withoutHere ++ rest) : root.relativeTo path = joinText rest := by
  have below : root.withoutHere.isPrefixOf path.withoutHere = true := by
    rw [List.isPrefixOf_iff_prefix, split]
    exact List.prefix_append _ _
  rw [relativeTo, if_pos below, split, List.drop_left]

theorem filterMap_component?_joinText {components : List Component} (proper : AllProper components) :
    (splitSlashes (joinText components).toList).filterMap component? = components := by
  by_cases empty : components = []
  · rw [empty]
    rfl
  · have split := parts_spelled proper empty
    rw [spelled_of_ne_nil empty, parts] at split
    rw [split, filterMap_component? proper]

theorem joinText_injective {left right : List Component} (proper : AllProper left)
    (alsoProper : AllProper right) (same : joinText left = joinText right) : left = right := by
  rw [← filterMap_component?_joinText proper, same, filterMap_component?_joinText alsoProper]

/-- The path begins with the components of the root. An absolute path is not below the
working directory, which has no components of its own. -/
def Holds (root path : Path) : Prop :=
  path.isAbsolute = root.isAbsolute ∧ root.withoutHere <+: path.withoutHere

theorem holds_join (root : Path) {path : Path} (relative : path.isAbsolute = false) :
    root.Holds (root.join path) := by
  refine ⟨isAbsolute_join root relative, ?_⟩
  rw [withoutHere_join root relative]
  exact List.prefix_append _ _

theorem Holds.exists_rest {root path : Path} (holds : root.Holds path) :
    ∃ rest, path.withoutHere = root.withoutHere ++ rest ∧ AllProper rest := by
  obtain ⟨absolute, rest, split⟩ := holds
  refine ⟨rest, split.symm, fun component member => ?_⟩
  rw [withoutHere_eq_append, withoutHere_eq_append path, absolute, List.append_assoc,
    List.append_cancel_left_eq] at split
  have inside : component ∈ path.parts.filterMap component? := by
    rw [← split]
    exact List.mem_append_right _ member
  obtain ⟨part, among, made⟩ := List.mem_filterMap.1 inside
  exact proper_of_component? (unslashed_of_mem_splitSlashes among) made

/-- Below one root, paths look the same from it if they have the same components. -/
theorem relativeTo_eq_iff {root first second : Path} (holds : root.Holds first)
    (alsoHolds : root.Holds second) :
    root.relativeTo first = root.relativeTo second ↔ first.withoutHere = second.withoutHere := by
  obtain ⟨rest, split, proper⟩ := holds.exists_rest
  obtain ⟨other, otherSplit, otherProper⟩ := alsoHolds.exists_rest
  rw [relativeTo_of_append split, relativeTo_of_append otherSplit, split, otherSplit,
    List.append_cancel_left_eq]
  exact ⟨joinText_injective proper otherProper, congrArg joinText⟩

/-- The metadata of a var that a form defines where the file at this path is loaded from this root. -/
def DefinedIn (root path : Path) (metadata : Metadata) : Prop :=
  ∃ (loading : Loading) (isMain : Bool) (text : String) (form : Form) (name : String),
    loading.root = root ∧ (name, metadata) ∈ Definition.ofForm (loading.unitOf path isMain text).site form

theorem DefinedIn.file {root path : Path} {metadata : Metadata} (defined : root.DefinedIn path metadata) :
    metadata.get? "file" = some (.text (root.relativeTo path)) := by
  obtain ⟨loading, isMain, text, form, name, rfl, member⟩ := defined
  exact Definition.file_of_mem_ofForm member

theorem file_eq_iff {root first second : Path} {metadata other : Metadata}
    (defined : root.DefinedIn first metadata) (alsoDefined : root.DefinedIn second other) :
    metadata.get? "file" = other.get? "file" ↔ root.relativeTo first = root.relativeTo second := by
  rw [defined.file, alsoDefined.file, Option.some_inj, Value.text.injEq]

/-- Seen from a root, a plain path that was joined to it is its names with slashes between
them. Slashes repeated and `.` components added anywhere in the root or in a path make no
difference. So the vars defined in two files below one root have the same `file` field exactly
if the components of the files are the same: those that were joined to the root and, in
general, all but dots that change nothing. -/
theorem relative_paths_recovered (root : Path) :
    (∀ path : Path, path.Plain → root.relativeTo (root.join path) = "/".intercalate path.names) ∧
    (∀ path paddedRoot paddedPath : Path, root.Padded paddedRoot → path.Padded paddedPath →
      paddedRoot.relativeTo paddedPath = root.relativeTo path) ∧
    (∀ first second : Path, first.Plain → second.Plain → ∀ metadata other,
      root.DefinedIn (root.join first) metadata → root.DefinedIn (root.join second) other →
      (metadata.get? "file" = other.get? "file" ↔ first.components = second.components)) ∧
    ∀ first second : Path, root.Holds first → root.Holds second → ∀ metadata other,
      root.DefinedIn first metadata → root.DefinedIn second other →
      (metadata.get? "file" = other.get? "file" ↔ first.withoutHere = second.withoutHere) := by
  have joined (path : Path) (plain : path.Plain) :
      (root.join path).withoutHere = root.withoutHere ++ path.components := by
    rw [withoutHere_join root plain.isAbsolute, plain.withoutHere]
  refine ⟨fun path plain => relativeTo_of_append (joined path plain), ?_, ?_, ?_⟩
  · intro path paddedRoot paddedPath paddingRoot padding
    rw [relativeTo, relativeTo, paddingRoot.withoutHere, padding.withoutHere]
  · intro first second plain alsoPlain metadata other defined alsoDefined
    rw [file_eq_iff defined alsoDefined, relativeTo_eq_iff (holds_join root plain.isAbsolute)
      (holds_join root alsoPlain.isAbsolute), joined first plain, joined second alsoPlain,
      List.append_cancel_left_eq]
  · intro first second holds alsoHolds metadata other defined alsoDefined
    rw [file_eq_iff defined alsoDefined, relativeTo_eq_iff holds alsoHolds]

/-- A root and a path that are spelled at length, and two files below the root. -/
theorem demo_files_recovered :
    let root : Path := ⟨"src"⟩
    let core : Path := ⟨"demo//core.clj"⟩
    let util : Path := ⟨"demo/util.clj"⟩
    let form : Form := .group .list [.atom (.symbol "def") ⟨1, 4⟩ [], .atom (.symbol "x") ⟨5, 6⟩ []] ⟨0, 7⟩ []
    let loading : Loading := ⟨default, Features.standard, root, "demo"⟩
    let defined (path : Path) : List Definition :=
      Definition.ofForm (loading.unitOf (root.join path) true "(def x)").site form
    core.Plain ∧ util.Plain ∧ root.relativeTo (root.join core) = "demo/core.clj" ∧
      root.Padded ⟨"./src//"⟩ ∧ (root.join util).Padded ⟨"src/./demo/util.clj"⟩ ∧
      relativeTo ⟨"./src//"⟩ ⟨"src/./demo/util.clj"⟩ = "demo/util.clj" ∧
      (defined core).length = 1 ∧ (defined util).length = 1 ∧
      ∀ first ∈ defined core, ∀ second ∈ defined util, first.2.get? "file" ≠ second.2.get? "file" := by
  intro root core util form loading defined
  obtain ⟨recovers, unpadded, told, -⟩ := relative_paths_recovered root
  have plainCore : core.Plain := by decide +kernel
  have plainUtil : util.Plain := by decide +kernel
  have seenCore : root.relativeTo (root.join core) = "demo/core.clj" :=
    (recovers core plainCore).trans (by decide +kernel)
  have seenUtil : root.relativeTo (root.join util) = "demo/util.clj" :=
    (recovers util plainUtil).trans (by decide +kernel)
  have paddedRoot : root.Padded ⟨"./src//"⟩ := by
    refine ⟨?_, by decide +kernel⟩
    have begun : Pads "src".toList "./src".toList := .dotSlash (.inl rfl) _
    have closed : Pads "./src".toList "./src/".toList := .lastSlash (by decide +kernel)
    have repeated : Pads "./src/".toList "./src//".toList := .slash "./src".toList []
    exact .tail (.tail (.single begun) closed) repeated
  have paddedUtil : (root.join util).Padded ⟨"src/./demo/util.clj"⟩ := by
    have joined : root.join util = ⟨"src/demo/util.clj"⟩ := by decide +kernel
    have dotted : Pads "src/demo/util.clj".toList "src/./demo/util.clj".toList :=
      @Pads.dotSlash "src/".toList (.inr rfl) "demo/util.clj".toList
    rw [joined]
    exact ⟨.single dotted, by decide +kernel⟩
  have made (path : Path) (definition : Definition) (member : definition ∈ defined path) :
      root.DefinedIn (root.join path) definition.2 :=
    ⟨loading, true, "(def x)", form, definition.1, rfl, member⟩
  refine ⟨plainCore, plainUtil, seenCore, paddedRoot, paddedUtil, ?_, by decide +kernel, by decide +kernel, ?_⟩
  · exact (unpadded _ _ _ paddedRoot paddedUtil).trans seenUtil
  · intro first member second other same
    have told := told core util plainCore plainUtil _ _ (made core first member) (made util second other)
    exact absurd (told.1 same) (by decide +kernel)

end Path

end VarDoc
