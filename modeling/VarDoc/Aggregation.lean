import VarDoc.Document
import VarDoc.Namespace.Registry

/-! Collecting a project: every source file is resolved in turn, and a file
that fails is set aside. A namespace that several files declare keeps the
records of the last of them. -/

set_option autoImplicit false

namespace VarDoc

structure LoadFailure where
  file : Path
  error : LoadError

structure Aggregation where
  document : Document
  /-- The files set aside, in the order they were met. -/
  failures : List LoadFailure

namespace Aggregation

def failureEvent (source : SourceFile) (error : LoadError) : Event :=
  ⟨.warn, .core, "unable to resolve " ++ source.path.text ++ ": " ++ error.message, []⟩

/-- Resolves the sources on top of a document; the failures come in order. -/
def collect (tree : FileTree) (document : Document) (loader : Loader) :
    List SourceFile → Logged (Aggregation × Loader)
  | [] => .pure (⟨document, []⟩, loader)
  | source :: rest =>
    (loader.resolve tree source).bind fun (result, updated) =>
      match result with
      | .ok resolved => collect tree (document.insert resolved.name resolved.records) updated rest
      | .error error =>
        ((collect tree document updated rest).after [failureEvent source error]).map
          fun (aggregation, final) =>
            ({ aggregation with failures := ⟨source.path, error⟩ :: aggregation.failures }, final)

end Aggregation

/-- The document of a project and the files that gave nothing. -/
def aggregate (tree : FileTree) (descriptor : Descriptor) (sources : List SourceFile)
    (loader : Loader) : Logged (Aggregation × Loader) :=
  Aggregation.collect tree (.ofDescriptor descriptor) loader sources

end VarDoc
