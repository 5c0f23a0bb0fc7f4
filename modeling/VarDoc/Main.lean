import VarDoc.Program

/-! The command line. The files that a command may look at are read before it
runs, and the file it writes is written after it. -/

set_option autoImplicit false

namespace VarDoc

/-- What is found at a path, with all that is below it. Anything but files and
directories is left out. -/
partial def loadNode? (path : String) : IO (Option FileNode) := do
  let .ok place ← (IO.FS.realPath path).toBaseIO | return none
  let .ok metadata ← place.metadata.toBaseIO | return none
  if metadata.type == .file then
    return some (.file (← IO.FS.readBinFile place))
  else if metadata.type == .dir then
    let mut entries : List (String × FileNode) := []
    for entry in ← place.readDir do
      if let some node ← loadNode? entry.path.toString then
        entries := insertEntry entry.fileName node entries
    return some (.directory entries)
  else return none

def namesOf (path : String) : IO (List String) := do
  return (← IO.FS.realPath path).components.filter fun name => !name.isEmpty

def loadPlace (tree : FileTree) (path : String) : IO FileTree := do
  match ← loadNode? path with
  | none => return tree
  | some node => return tree.putNode (← namesOf path) node

def loadFiles (words : List String) : IO FileTree := do
  let here := (← IO.currentDir).toString
  let empty : FileTree := ⟨.directory [], ← namesOf here⟩
  match CommandLine.read words with
  | .error _ => return empty
  | .ok (command, options) =>
    let mut tree ← loadPlace empty here
    for path in (options.settings.toList ++ command.places tree) do
      tree ← loadPlace tree path.text
    for path in command.places tree do
      tree ← loadPlace tree path.text
    return tree

def writeResult (outcome : Outcome) : IO Unit := do
  if let some path := outcome.written then
    if let .ok content := outcome.tree.read path then
      if let some parent := path.parent? then
        if !parent.text.isEmpty then IO.FS.createDirAll parent.text
      IO.FS.writeBinFile path.text content

def printFailure (outcome : Outcome) : IO Unit := do
  if outcome.exitCode = 2 then IO.eprint Program.helpText
  if let some error := outcome.error then
    IO.eprintln ("Error: " ++ error.summary)
    IO.eprintln "\nCaused by:"
    for reason in error.reasons do
      IO.eprintln ("    " ++ reason)

end VarDoc

open VarDoc in
def main (words : List String) : IO UInt32 := do
  let outcome := Program.run (← loadFiles words) (← IO.getEnv "RUST_LOG") words
  for line in outcome.log do
    IO.eprintln line
  writeResult outcome
  IO.print outcome.output
  printFailure outcome
  return outcome.exitCode.toUInt32
