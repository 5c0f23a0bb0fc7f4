import VarDoc.Aggregation
import VarDoc.CommandLine
import VarDoc.Document.Summary
import VarDoc.Project
import VarDoc.Project.Clojure
import VarDoc.Settings
import VarDoc.Snapshot

/-! The commands: a snapshot of a project, a snapshot of Clojure itself, and
the summary of a snapshot. -/

set_option autoImplicit false

namespace VarDoc

inductive CommandError where
  /-- Settings that were asked for by their path, or those of the working
  directory. -/
  | settings (path : Option Path) (error : SettingsError)
  | project (directory : Path) (error : ProjectError)
  | discovery (error : DiscoveryError)
  | writing (directory : Path) (error : SnapshotError)
  | reading (path : Path) (error : SnapshotError)

namespace CommandError

def summary : CommandError → String
  | .settings (some path) _ => "Failed to load '" ++ path.text ++ "'"
  | .settings none _ => "Failed to load " ++ Settings.fileName
  | .project directory _ => "Failed to read project in '" ++ directory.text ++ "'"
  | .discovery _ => "Failed to discover source files"
  | .writing directory _ => "Failed to write snapshot to '" ++ directory.text ++ "'"
  | .reading path _ => "Failed to read snapshot '" ++ path.text ++ "'"

def settingsReasons (error : SettingsError) : List String :=
  match error with
  | .unreadable _ cause => [error.message, cause.message]
  | _ => [error.message]

def projectReasons (error : ProjectError) : List String :=
  match error with
  | .unreadable _ cause => [error.message, cause.message]
  | .malformed _ cause => [error.message, cause.message]
  | .noProject _ => [error.message]

def snapshotReasons (error : SnapshotError) : List String :=
  match error with
  | .file _ cause => [error.message, cause.message]
  | .unserializable _ culprit => [error.message, culprit.unserializable]
  | .undecodable _ => [error.message]

def reasons : CommandError → List String
  | .settings _ error => settingsReasons error
  | .project _ error => projectReasons error
  | .discovery error => [error.message]
  | .writing _ error => snapshotReasons error
  | .reading _ error => snapshotReasons error

end CommandError

namespace Command

def noFilesEvent : Event := ⟨.warn, .command, "no source files found", []⟩

def completeEvent (aggregation : Aggregation) : Event :=
  ⟨.info, .command, "snapshot complete",
    [("namespaces", .number aggregation.document.namespaces.size),
      ("vars", .number aggregation.document.symbolCount),
      ("failures", .number aggregation.failures.length)]⟩

/-- The directory for snapshots: the one asked for, else that of the settings,
else the working directory. -/
def outputDirectory (settings : Settings) (output : Option Path) : Path :=
  (output.or settings.outputDirectory).getD ⟨"."⟩

def writeSnapshot (tree : FileTree) (settings : Settings) (output : Option Path)
    (descriptor : Descriptor) (sources : List SourceFile) :
    Logged (Except CommandError (Path × FileTree)) :=
  let directory := outputDirectory settings output
  let level := settings.compression.getD Snapshot.standardLevel
  Logged.after (if sources.isEmpty then [noFilesEvent] else []) <|
  (aggregate tree descriptor sources (Loader.new settings.features)).bind fun (aggregation, _) =>
    (Snapshot.write tree aggregation.document directory level).bind fun result =>
      match result with
      | .error error => .pure (.error (.writing directory error))
      | .ok written => ⟨[completeEvent aggregation], .ok written⟩

def snapshotProject (tree : FileTree) (settings : Settings) (output : Option Path)
    (directory : Path) : Logged (Except CommandError (Path × FileTree)) :=
  (Project.ofDirectory tree directory).bind fun result =>
    match result with
    | .error error => .pure (.error (.project directory error))
    | .ok descriptor =>
      let roots := descriptor.sourcePaths.map directory.join
      (settings.discovery.discoverAll tree roots).bind fun found =>
        match found with
        | .error error => .pure (.error (.discovery error))
        | .ok sources => writeSnapshot tree settings output descriptor sources

def snapshotClojure (tree : FileTree) (settings : Settings) (output : Option Path) (root : Path)
    (version : String) : Logged (Except CommandError (Path × FileTree)) :=
  let discovery : Discovery :=
    { settings.discovery with exclude := settings.exclude ++ Clojure.excludedFiles }
  (discovery.discover tree root).bind fun found =>
    match found with
    | .error error => .pure (.error (.discovery error))
    | .ok sources => writeSnapshot tree settings output (Clojure.descriptor version) sources

def inspectSnapshot (tree : FileTree) (path : Path) : Except CommandError String :=
  match Snapshot.read tree path with
  | .error error => .error (.reading path error)
  | .ok document => .ok document.summary

def places (tree : FileTree) : Command → List Path
  | .project directory =>
    match (Project.ofDirectory tree directory).value with
    | .ok descriptor => directory :: descriptor.sourcePaths.map directory.join
    | .error _ => [directory]
  | .clojure root _ => [root]
  | .inspect file => [file]

def loadSettings (tree : FileTree) (path : Option Path) : Logged (Except CommandError Settings) :=
  match path with
  | some given => .pure ((Settings.ofFile tree given).mapError (.settings path))
  | none => (Settings.ofDirectory tree ⟨"."⟩).map fun result => result.mapError (.settings none)

end Command

end VarDoc
