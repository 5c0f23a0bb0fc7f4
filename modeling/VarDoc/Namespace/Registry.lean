import VarDoc.Meta.Record
import VarDoc.Namespace.Loading

/-! The namespaces loaded so far, and resolving a source file into the records
of its public vars. A load that fails changes nothing. -/

set_option autoImplicit false

namespace VarDoc

structure Namespace where
  name : String
  vars : Dict Metadata

/-- Only the value true makes a var private. -/
def isPublic (metadata : Metadata) : Bool :=
  match metadata.get? "private" with
  | some (.bool true) => false
  | _ => true

def Namespace.publics (space : Namespace) : List Metadata := space.vars.values.filter isPublic

structure Loader where
  features : Features
  registry : Dict Namespace

namespace Loader

def new (features : Features) : Loader := ⟨features, ∅⟩

def namespace? (loader : Loader) (name : String) : Option Namespace := loader.registry.get? name

def declaredName (loader : Loader) (tree : FileTree) (source : SourceFile) :
    Except LoadError String :=
  VarDoc.declaredName tree loader.features source.path

/-- Loads a namespace afresh and registers it in place of an earlier one. -/
def load (loader : Loader) (tree : FileTree) (source : SourceFile) (name : String) :
    Logged (Except LoadError Namespace × Loader) :=
  let loaded := Loading.load ⟨tree, loader.features, source.root, name⟩ source.path
  match loaded.value with
  | .error error => ⟨loaded.events, .error error, loader⟩
  | .ok vars =>
    let space : Namespace := ⟨name, vars⟩
    let reloading : List Event :=
      if loader.registry.contains name then
        [⟨.debug, .core, "reloading", [("namespace", .quoted name)]⟩]
      else []
    ⟨loaded.events ++ reloading, .ok space,
      { loader with registry := loader.registry.insert name space }⟩

/-- A namespace and the records of its public vars, in order of their names. -/
structure Module where
  name : String
  records : List Record

def loadingEvent (what : String) : Event := ⟨.info, .core, "loading " ++ what, []⟩

/-- Loads what a source file declares and normalizes its public vars. -/
def resolve (loader : Loader) (tree : FileTree) (source : SourceFile) :
    Logged (Except LoadError Module × Loader) :=
  match loader.declaredName tree source with
  | .error error => ⟨[loadingEvent source.path.text], .error error, loader⟩
  | .ok name =>
    Logged.after [loadingEvent name] <|
    (loader.load tree source name).bind fun (result, updated) =>
      match result with
      | .error error => .pure (.error error, updated)
      | .ok space =>
        let records := space.publics.map Record.normalize
        ⟨[⟨.debug, .core, "resolved",
            [("namespace", .plain name), ("vars", .number records.length)]⟩],
          .ok ⟨name, records⟩, updated⟩

end Loader

end VarDoc
