import VarDoc.Aggregation
import VarDoc.Proofs.LoaderHistory

/-! Collecting a project file by file. What a file contributes does not depend
on the loader's past nor on the files before it, so that the document is made of
the last resolution of each namespace and the failures are those of the single
files. The order of the files matters only where two declare one namespace. -/

set_option autoImplicit false

namespace VarDoc

namespace Dict

variable {α ι : Type} {written? : ι → Option (String × α)}

/-- Two items write under different keys, or one of them writes nothing. -/
def Apart (written? : ι → Option (String × α)) (item other : ι) : Prop :=
  ∀ key first second, written? item = some (key, first) → written? other ≠ some (key, second)

theorem Apart.symm {item other : ι} (apart : Apart written? item other) :
    Apart written? other item :=
  fun key first second writes writesToo => apart key second first writesToo writes

theorem get?_written_of_apart {items : List ι} (apart : items.Pairwise (Apart written?))
    {key : String} {value : α} :
    ((∅ : Dict α).insertAll (items.filterMap written?)).get? key = some value ↔
      ∃ item ∈ items, written? item = some (key, value) := by
  rw [get?_written_iff]
  constructor
  · rintro ⟨before, item, after, rfl, writes, -⟩
    exact ⟨item, List.mem_append_right _ List.mem_cons_self, writes⟩
  · rintro ⟨item, member, writes⟩
    obtain ⟨before, after, rfl⟩ := List.append_of_mem member
    refine ⟨before, item, after, rfl, writes, ?_⟩
    intro later inAfter other writesToo
    have behind := List.rel_of_pairwise_cons (List.pairwise_append.1 apart).2.1 inAfter
    exact behind key value other writes writesToo

theorem written_perm {items others : List ι} (same : items.Perm others)
    (apart : items.Pairwise (Apart written?)) :
    (∅ : Dict α).insertAll (items.filterMap written?) =
      (∅ : Dict α).insertAll (others.filterMap written?) := by
  have apartToo := (same.pairwise_iff Apart.symm).1 apart
  refine eq_of_get? fun key => Option.ext fun value => ?_
  rw [get?_written_of_apart apart, get?_written_of_apart apartToo]
  simp only [same.mem_iff]

end Dict

namespace Loader

theorem features_resolve (loader : Loader) (tree : FileTree) (source : SourceFile) :
    (loader.resolve tree source).value.2.features = loader.features :=
  Workspace.features_run ⟨tree, loader⟩ [.resolve source]

def freshEntry? (features : Features) (tree : FileTree) (source : SourceFile) :
    Option (String × List Record) :=
  ((new features).resolve tree source).value.1.toOption.map fun found => (found.name, found.records)

def freshFailure? (features : Features) (tree : FileTree) (source : SourceFile) :
    Option LoadFailure :=
  match ((new features).resolve tree source).value.1 with
  | .error error => some ⟨source.path, error⟩
  | .ok _ => none

variable {features : Features} {tree : FileTree} {source : SourceFile}

theorem freshEntry?_eq_some_iff {name : String} {records : List Record} :
    freshEntry? features tree source = some (name, records) ↔
      ((new features).resolve tree source).value.1 = .ok ⟨name, records⟩ := by
  unfold freshEntry?
  constructor
  · intro entry
    obtain ⟨found, resolved, same⟩ := Option.map_eq_some_iff.1 entry
    obtain ⟨rfl, rfl⟩ := Prod.mk.inj same
    exact eq_ok_of_toOption resolved
  · intro resolved
    rw [resolved]
    rfl

end Loader

namespace Aggregation

/-- Collecting puts what each file gives to a new loader on top of the document,
in turn, and leaves the loader's past without influence. -/
theorem collect_value (tree : FileTree) (sources : List SourceFile) (document : Document)
    (loader : Loader) :
    (collect tree document loader sources).value.1 =
      ⟨{ document with
          namespaces := document.namespaces.insertAll
            (sources.filterMap (Loader.freshEntry? loader.features tree)) },
        sources.filterMap (Loader.freshFailure? loader.features tree)⟩ := by
  induction sources generalizing document loader with
  | nil => rfl
  | cons source rest ih =>
    -- The rest is collected with another loader, of which only the features matter.
    have answer := loader.resolve_answer tree source
    have kept := loader.features_resolve tree source
    simp only [collect, Logged.bind, Logged.after]
    split
    next found succeeded =>
      have fresh := answer.symm.trans succeeded
      refine (ih _ _).trans ?_
      simp only [kept, List.filterMap_cons, Loader.freshEntry?, Loader.freshFailure?, fresh]
      rfl
    next error failed =>
      have fresh := answer.symm.trans failed
      refine (congrArg (fun made : Aggregation =>
        ({ made with failures := ⟨source.path, error⟩ :: made.failures } : Aggregation)) (ih _ _)).trans ?_
      simp only [kept, List.filterMap_cons, Loader.freshEntry?, Loader.freshFailure?, fresh]
      rfl

end Aggregation

/-- A project is collected file by file, whatever was done with the loader
before. The document has the descriptor's fields. Under each name it has the
records that a new loader gives for the last file that resolves with that name,
and the failures are the files on which a new loader fails, in order, each with
its error. So files that declare different namespaces may come in any order. -/
theorem aggregate_keeps_last_resolved (features : Features) (files : FileTree)
    (history : List LoaderAction) (tree : FileTree) (descriptor : Descriptor)
    (sources : List SourceFile) :
    let fresh := Loader.new features
    let loader := (Workspace.run ⟨files, fresh⟩ history).loader
    let made := (aggregate tree descriptor sources loader).value.1
    (made.document.name = descriptor.name ∧ made.document.url = descriptor.url ∧
      made.document.description = descriptor.description ∧
      made.document.version = descriptor.version ∧ made.document.group = descriptor.group ∧
      made.document.scm = descriptor.scm ∧ made.document.license = descriptor.license) ∧
    (∀ name records, made.document.namespaces.get? name = some records ↔
      ∃ before source after, sources = before ++ source :: after ∧
        (fresh.resolve tree source).value.1 = .ok ⟨name, records⟩ ∧
        ∀ later ∈ after, ∀ others, (fresh.resolve tree later).value.1 ≠ .ok ⟨name, others⟩) ∧
    made.failures = sources.filterMap (Loader.freshFailure? features tree) ∧
    ∀ others, sources.Perm others →
      (sources.Pairwise fun source other => ∀ name, fresh.declaredName tree source = .ok name →
        fresh.declaredName tree other ≠ .ok name) →
      (aggregate tree descriptor others loader).value.1.document = made.document := by
  intro fresh loader made
  have sameFeatures : loader.features = features := Workspace.features_run ..
  have collected (list : List SourceFile) : (aggregate tree descriptor list loader).value.1 = _ :=
    Aggregation.collect_value tree list (.ofDescriptor descriptor) loader
  rw [sameFeatures] at collected
  have isMade : made = _ := collected sources
  refine ⟨?_, ?_, ?_, ?_⟩
  · rw [isMade]
    exact ⟨rfl, rfl, rfl, rfl, rfl, rfl, rfl⟩
  · intro name records
    rw [isMade]
    refine Dict.get?_written_iff.trans ?_
    simp only [ne_eq, Loader.freshEntry?_eq_some_iff]
    rfl
  · rw [isMade]
  · intro others same distinct
    have apart : sources.Pairwise (Dict.Apart (Loader.freshEntry? features tree)) := by
      refine distinct.imp ?_
      intro source other differ name records records' resolved resolvedToo
      obtain ⟨-, declared, -⟩ := Loader.resolve_eq_ok_iff.1 (Loader.freshEntry?_eq_some_iff.1 resolved)
      obtain ⟨-, declaredToo, -⟩ :=
        Loader.resolve_eq_ok_iff.1 (Loader.freshEntry?_eq_some_iff.1 resolvedToo)
      exact differ name declared declaredToo
    have namespaces := Dict.written_perm same apart
    rw [isMade, collected others]
    exact congrArg (fun spaces => { Document.ofDescriptor descriptor with namespaces := spaces })
      namespaces.symm

/-- Files of two namespaces, one that fails, and an empty one that declares the
first namespace again. -/
def mixedFiles : FileTree :=
  .flat [("a.clj", "(ns a)\n(def x 1)\n"), ("b.clj", "(ns b)\n"), ("broken.clj", "(ns c)\n(def"),
    ("empty.clj", "(ns a)\n")]

def mixedSource (name : String) : SourceFile := ⟨⟨"."⟩, ⟨"./" ++ name⟩⟩

/-- The var of `a.clj` is documented in either order, although the loader has met
the namespace without it before. -/
theorem reordered_sources_give_same_document :
    let sources := [mixedSource "a.clj", mixedSource "broken.clj", mixedSource "b.clj"]
    let others := [mixedSource "b.clj", mixedSource "a.clj", mixedSource "broken.clj"]
    let past : List LoaderAction := [.load (mixedSource "empty.clj") "a"]
    let loader := (Workspace.run ⟨mixedFiles, .new ["clj"]⟩ past).loader
    let document := (aggregate mixedFiles {} sources loader).value.1.document
    (aggregate mixedFiles {} others loader).value.1.document = document ∧
      ∃ records, document.namespaces.get? "a" = some records ∧ records.length = 1 := by
  intro sources others past loader document
  have declared (file name : String)
      (seen : ((Loader.new ["clj"]).declaredName mixedFiles (mixedSource file)).toOption = some name) :
      (Loader.new ["clj"]).declaredName mixedFiles (mixedSource file) = .ok name :=
    eq_ok_of_toOption seen
  have declaredA := declared "a.clj" "a" (by decide +kernel)
  have declaredB := declared "b.clj" "b" (by decide +kernel)
  have declaredC := declared "broken.clj" "c" (by decide +kernel)
  obtain ⟨-, keeps, -, reorders⟩ :=
    aggregate_keeps_last_resolved ["clj"] mixedFiles past mixedFiles {} sources
  obtain ⟨-, count⟩ := (Loader.new ["clj"]).see_load mixedFiles (mixedSource "a.clj") "a" 20
    (fun space => space.publics.length) [⟨"./a.clj"⟩] (some 1) (by decide +kernel)
  obtain ⟨space, loaded, isOne⟩ := exceptMap_eq_ok_iff.1 (eq_ok_of_toOption count)
  constructor
  · refine reorders others (by decide) ?_
    simp [sources, declaredA, declaredB, declaredC]
  · refine ⟨space.publics.map Record.normalize, (keeps "a" _).2 ⟨[], mixedSource "a.clj", _, rfl,
      Loader.resolve_eq_ok_iff.2 ⟨space, declaredA, loaded, rfl⟩, ?_⟩, by simpa using isOne⟩
    intro later member records resolved
    obtain ⟨-, declaredToo, -⟩ := Loader.resolve_eq_ok_iff.1 resolved
    simp only [List.mem_cons, List.not_mem_nil, or_false] at member
    rcases member with rfl | rfl
    · rw [declaredC] at declaredToo
      simp at declaredToo
    · rw [declaredB] at declaredToo
      simp at declaredToo

end VarDoc
