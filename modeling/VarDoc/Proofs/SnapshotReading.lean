import VarDoc.Proofs.FileTree
import VarDoc.Proofs.Gzip
import VarDoc.Proofs.StorableDocument
import VarDoc.Proofs.StoredDocument

/-! Snapshots are read back from where they were written: the path leads to the
file, the file holds the text, and the text is the document's. -/

set_option autoImplicit false

namespace VarDoc

theorem Path.toList_join (base path : Path) :
    ∃ before, (base.join path).text.toList = before ++ path.text.toList := by
  unfold join
  split
  · exact ⟨[], rfl⟩
  · split
    · exact ⟨base.text.toList, String.toList_append⟩
    · exact ⟨(base.text ++ "/").toList, String.toList_append⟩

namespace Snapshot

theorem decode?_encode (text : String) : decode? (encode text) = some text := by
  have inflated : Gzip.decompress? (encode text).data.toList = some text.toUTF8.data.toList := by
    rw [encode, List.toList_toArray, Gzip.decompress?_compress]
  rw [decode?, inflated, Option.bind_some, Array.toArray_toList]
  exact dif_pos text.isValidUTF8

theorem parts_join_fileName (directory : Path) (document : Document) :
    (directory.join ⟨document.fileName⟩).parts.getLast? ≠ some [] := by
  obtain ⟨before, joined⟩ := Path.toList_join directory ⟨document.fileName⟩
  have last : (directory.join ⟨document.fileName⟩).text.toList.getLast? = some 'z' := by
    rw [joined, Document.fileName, String.toList_append, ← List.append_assoc, List.getLast?_append]
    rfl
  apply getLast?_splitSlashes
  · rw [last]
    decide
  · intro empty
    rw [empty] at last
    contradiction

theorem node_of_write {tree written : FileTree} {document : Document} {directory path : Path}
    {level : Nat} (wrote : (write tree document directory level).value = .ok (path, written)) :
    ∃ json, document.toJson = .ok json ∧ written.node path = .ok (.file (encode json.render)) := by
  cases made : document.toJson with
  | error culprit =>
    unfold write at wrote
    split at wrote
    · contradiction
    · simp only [Logged.after, made] at wrote
      split at wrote <;> contradiction
  | ok json =>
    refine ⟨json, rfl, ?_⟩
    rw [write_value made] at wrote
    split at wrote
    · contradiction
    · dsimp only at wrote
      split at wrote
      · contradiction
      next grown wroteFile =>
        obtain ⟨rfl, rfl⟩ := Prod.mk.inj (Except.ok.inj wrote)
        exact FileTree.node_of_write wroteFile (parts_join_fileName directory document)

end Snapshot

namespace Document

/-- The text of every double in the document is read as that double. -/
def ExactDoubles (document : Document) : Prop :=
  ∀ json, document.toJson = .ok json → ∀ value finite,
    Json.Number.real value finite ∈ json.numbers → (Json.Number.real value finite).ReadsBack

theorem ExactDoubles.legible {document : Document} (doubles : document.ExactDoubles) {json : Json}
    (made : document.toJson = .ok json) : json.Legible := by
  intro number member
  cases number with
  | whole value fits => exact Json.Number.whole_legible value fits
  | real value finite => exact (doubles json made value finite member).legible

end Document

/-- A snapshot is read back where it was written, with names and code as text,
unless its JSON nests too deep. Then nothing is read. -/
theorem snapshot_reads_back {tree written : FileTree} {document : Document} {directory path : Path}
    {level : Nat} (wrote : (Snapshot.write tree document directory level).value = .ok (path, written))
    (sorted : document.Sorted) (doubles : document.ExactDoubles) :
    ∃ json, document.toJson = .ok json ∧
      Snapshot.read written path =
        if json.depth ≤ 127 then .ok document.stored else .error (.undecodable path) := by
  obtain ⟨json, made, found⟩ := Snapshot.node_of_write wrote
  refine ⟨json, made, ?_⟩
  have read := Document.read?_render made sorted (doubles.legible made)
  rw [Snapshot.read, found]
  dsimp only
  rw [Snapshot.decode?_encode, Option.bind_some, read, Json.Raw.depthLimit]
  by_cases fits : json.depth ≤ 127
  · rw [if_pos fits, if_pos fits]
  · rw [if_neg fits, if_neg fits]

def nestedDocument : Document where
  name := some "demo"
  url := none
  description := none
  version := some "1.0"
  group := none
  scm := some .null
  license := some (.object [("name", .string "EPL"), ("year", Json.ofInt64 2004)])
  namespaces := ⟨[("demo.core", [⟨⟨[("added", .keyword "v1"),
    ("see", .seq [.symbol "map", .map [("a", .nil), ("b", .int (-3))]])], by decide⟩⟩])], by decide⟩

/-- Storing the nested document in an empty directory and reading it again. -/
theorem nestedDocument_reads_back : ∃ path written,
    (Snapshot.write ⟨.directory [], []⟩ nestedDocument ⟨""⟩ Snapshot.standardLevel).value =
      .ok (path, written) ∧ nestedDocument.Sorted ∧ nestedDocument.ExactDoubles ∧
    Snapshot.read written path = .ok
      { nestedDocument with
        scm := none
        namespaces := ⟨[("demo.core", [⟨⟨[("added", .text "v1"),
          ("see", .seq [.text "map", .map [("a", .nil), ("b", .int (-3))]])], by decide⟩⟩])],
          by decide⟩ } := by
  have made : nestedDocument.toJson = .ok (.object [("name", .string "demo"),
      ("version", .string "1.0"), ("scm", .null),
      ("license", .object [("name", .string "EPL"), ("year", Json.ofInt64 2004)]),
      ("namespaces", .object [("demo.core", .array [.object [("added", .string "v1"),
        ("see", .array [.string "map", .object [("a", .null), ("b", Json.ofInt64 (-3))]])]])])]) := rfl
  have sorted : nestedDocument.Sorted := by
    constructor
    · rintro json ⟨⟩
      exact .null
    · rintro json ⟨⟩
      refine .object (by decide) ?_
      exact List.forall_mem_cons.2 ⟨.string _, List.forall_mem_cons.2 ⟨.number _, nofun⟩⟩
    · simp [nestedDocument, Record.Sorted, Value.EntriesSorted, Value.Sorted, Value.ItemsSorted]
      decide
  have doubles : nestedDocument.ExactDoubles := by
    intro json found value finite member
    obtain rfl := Except.ok.inj (made.symm.trans found)
    simp [Json.numbers, Json.fieldNumbers, Json.itemNumbers, Json.ofInt64] at member
  have wrote : (Snapshot.write ⟨.directory [], []⟩ nestedDocument ⟨""⟩ Snapshot.standardLevel).value =
      .ok (⟨"demo-1.0.json.gz"⟩, FileTree.putNode ⟨.directory [], []⟩ ["demo-1.0.json.gz"]
        (.file (Snapshot.contentOf nestedDocument))) := by
    have here : FileTree.makeDirectories ⟨.directory [], []⟩ ⟨""⟩ = .ok ⟨.directory [], []⟩ := by
      rw [FileTree.makeDirectories, FileTree.ancestors]
      rfl
    rw [Snapshot.write_value made, here]
    rfl
  refine ⟨_, _, wrote, sorted, doubles, ?_⟩
  obtain ⟨json, found, read⟩ := snapshot_reads_back wrote sorted doubles
  obtain rfl := Except.ok.inj (made.symm.trans found)
  rw [read, if_pos (by decide)]
  rfl

end VarDoc
