import VarDoc.Discovery
import VarDoc.Settings.Entry

/-! Settings of a run, from a file in which every key is optional. -/

set_option autoImplicit false

namespace VarDoc

inductive SettingsError where
  | unreadable (path : Path) (cause : FileError)
  | malformed (path : Path)
  | invalidCompression (level : Nat)
  deriving DecidableEq, Repr

def SettingsError.message : SettingsError → String
  | .unreadable path cause => "failed to read config '" ++ path.text ++ "': " ++ cause.message
  | .malformed path => "failed to parse config '" ++ path.text ++ "'"
  | .invalidCompression level =>
    "compression level " ++ toString level ++ " is out of range 0-9"

structure Settings where
  /-- Where snapshots are written. -/
  outputDirectory : Option Path := none
  extensions : List String := Discovery.standardExtensions
  exclude : List String := []
  compression : Option Nat := none
  features : Features := Features.standard

namespace Settings

def fileName : String := "nsdoc.toml"

def compressionLimit : Nat := 9

/-- Numbers that fit 32 bits without a sign. -/
def level? (value : Int) : Option Nat :=
  if 0 ≤ value ∧ value < 0x100000000 then some value.toNat else none

/-- Changes one setting. Unknown keys and values of another kind are
refused. -/
def set? (settings : Settings) (key : String) (value : Setting) : Option Settings :=
  match key, value with
  | "output-dir", .text content => some { settings with outputDirectory := some ⟨content⟩ }
  | "extensions", .texts items => some { settings with extensions := items }
  | "exclude", .texts items => some { settings with exclude := items }
  | "features", .texts items => some { settings with features := items }
  | "compression", .number value => (level? value).map fun level =>
      { settings with compression := some level }
  | _, _ => none

def read? (text : String) : Option Settings :=
  (entries? text).bind fun entries =>
    entries.foldlM (fun settings (key, value) => settings.set? key value) {}

def check (settings : Settings) : Except SettingsError Settings :=
  match settings.compression with
  | some level =>
    if compressionLimit < level then .error (.invalidCompression level) else .ok settings
  | none => .ok settings

def ofFile (tree : FileTree) (path : Path) : Except SettingsError Settings :=
  match tree.readText path with
  | .error cause => .error (.unreadable path cause)
  | .ok text =>
    match read? text with
    | none => .error (.malformed path)
    | some settings => settings.check

def ofDirectory (tree : FileTree) (directory : Path) : Logged (Except SettingsError Settings) :=
  let path := directory.join ⟨fileName⟩
  if tree.isFile path then
    ⟨[⟨.debug, .project, "loading config", [("path", .plain path.text)]⟩], ofFile tree path⟩
  else .pure (.ok {})

def discovery (settings : Settings) : Discovery := ⟨settings.extensions, settings.exclude⟩

end Settings

end VarDoc
