import VarDoc.Command
import VarDoc.LogFilter

/-! The whole program as a function: from words, files and a choice of log
events to what it prints and the files as it leaves them. -/

set_option autoImplicit false

namespace VarDoc

structure Outcome where
  exitCode : Nat
  /-- What is printed as the result. -/
  output : String
  /-- The lines of the log that are shown. -/
  log : List String
  error : Option CommandError
  tree : FileTree
  /-- The file that was written. -/
  written : Option Path

namespace Program

def version : String := "0.3.0"

def versionText : String := "nsdoc " ++ version ++ "\n"

def helpText : String :=
  "Usage: nsdoc [OPTIONS] <COMMAND>\n\nCommands:\n  project [DIR]\n" ++
    "  clojure <SRC_DIR> --clojure-version <CLOJURE_VERSION>\n  inspect <FILE>\n\nOptions:\n" ++
    "  -o, --output <OUTPUT>\n  -c, --config <CONFIG>\n  -v, --verbose...\n  -q, --quiet\n" ++
    "  -h, --help\n  -V, --version\n"

/-- What a command prints, the file it writes, and the files after it. -/
structure Effect where
  output : String
  written : Option Path
  tree : FileTree

def runCommand (tree : FileTree) (options : Options) (command : Command) :
    Logged (Except CommandError Effect) :=
  let snapshot (write : Settings → Logged (Except CommandError (Path × FileTree))) :=
    (Command.loadSettings tree options.settings).bind fun loaded =>
      match loaded with
      | .error error => .pure (.error error)
      | .ok settings => (write settings).map fun result =>
        result.map fun (path, after) => ⟨path.text ++ "\n", some path, after⟩
  match command with
  | .project directory =>
    snapshot fun settings => Command.snapshotProject tree settings options.output directory
  | .clojure root version =>
    snapshot fun settings => Command.snapshotClojure tree settings options.output root version
  | .inspect path => .pure ((Command.inspectSnapshot tree path).map (⟨·, none, tree⟩))

/-- The filter that is given, if it is well formed, or else what the options
ask for. -/
def filterFor (given : Option String) (options : Options) : LogFilter :=
  (given.bind LogFilter.read?).getD (LogFilter.upTo options.level)

def run (tree : FileTree) (filter : Option String) (words : List String) : Outcome :=
  match CommandLine.read words with
  | .error .version => ⟨0, versionText, [], none, tree, none⟩
  | .error .help => ⟨0, helpText, [], none, tree, none⟩
  | .error .misuse => ⟨2, "", [], none, tree, none⟩
  | .ok (command, options) =>
    let result := runCommand tree options command
    let log := (result.events.filter (filterFor filter options).shows).map Event.line
    match result.value with
    | .error error => ⟨1, "", log, some error, tree, none⟩
    | .ok effect => ⟨0, effect.output, log, none, effect.tree, effect.written⟩

end Program

end VarDoc
