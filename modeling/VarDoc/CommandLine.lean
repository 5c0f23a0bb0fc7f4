import VarDoc.Log
import VarDoc.Path

/-! What the words of a command line ask for. Options may stand before or after
the name of the command; each of the two places takes an option once, and what
stands after the name counts more. -/

set_option autoImplicit false

namespace VarDoc

inductive Command where
  | project (directory : Path)
  | clojure (root : Path) (version : String)
  | inspect (file : Path)
  deriving DecidableEq, Repr

structure Options where
  output : Option Path
  settings : Option Path
  verbosity : Nat
  quiet : Bool
  deriving DecidableEq, Repr

def Options.level (options : Options) : Level :=
  if options.quiet then .error
  else
    match options.verbosity with
    | 0 => .info
    | 1 => .debug
    | _ => .trace

namespace CommandLine

inductive Stop where
  | misuse
  | version
  | help
  deriving DecidableEq, Repr

inductive CommandName where
  | project
  | clojure
  | inspect
  | help
  deriving DecidableEq, Repr

def CommandName.ofWord? : String → Option CommandName
  | "project" => some .project
  | "clojure" => some .clojure
  | "inspect" => some .inspect
  | "help" => some .help
  | _ => none

inductive ValueOption where
  | output
  | settings
  | clojureVersion
  deriving DecidableEq, Repr

inductive Switch where
  | verbose
  | quiet
  | help
  | version
  deriving DecidableEq, Repr

inductive OptionKind where
  | value (option : ValueOption)
  | switch (option : Switch)
  deriving DecidableEq, Repr

structure Place where
  output : Option String := none
  settings : Option String := none
  clojureVersion : Option String := none
  verbosity : Nat := 0
  quiet : Bool := false
  /-- Words that are no options, in their order. -/
  words : List String := []
  /-- An option whose value comes next. -/
  pending : Option ValueOption := none
  /-- After two dashes nothing is an option. -/
  literal : Bool := false
  deriving DecidableEq, Repr

namespace Place

/-- Gives an option its value. No option takes two, and a path is never
empty. -/
def setValue (place : Place) (option : ValueOption) (value : String) : Except Stop Place :=
  let isFree (old : Option String) := old.isNone && !value.isEmpty
  match option with
  | .output =>
    if isFree place.output then .ok { place with output := some value, pending := none }
    else .error .misuse
  | .settings =>
    if isFree place.settings then .ok { place with settings := some value, pending := none }
    else .error .misuse
  | .clojureVersion =>
    if place.clojureVersion.isNone then
      .ok { place with clojureVersion := some value, pending := none }
    else .error .misuse

def turnOn (place : Place) : Switch → Except Stop Place
  | .verbose => .ok { place with verbosity := place.verbosity + 1 }
  | .quiet => if place.quiet then .error .misuse else .ok { place with quiet := true }
  | .help => .error .help
  | .version => .error .version

end Place

def longOption? (name : Option CommandName) (word : String) : Option OptionKind :=
  match word with
  | "output" => some (.value .output)
  | "config" => some (.value .settings)
  | "verbose" => some (.switch .verbose)
  | "quiet" => some (.switch .quiet)
  | "help" => some (.switch .help)
  | "version" => if name = none then some (.switch .version) else none
  | "clojure-version" => if name = some .clojure then some (.value .clojureVersion) else none
  | _ => none

def shortOption? (name : Option CommandName) (letter : Char) : Option OptionKind :=
  match letter with
  | 'o' => some (.value .output)
  | 'c' => some (.value .settings)
  | 'v' => some (.switch .verbose)
  | 'q' => some (.switch .quiet)
  | 'h' => some (.switch .help)
  | 'V' => if name = none then some (.switch .version) else none
  | _ => none

def readLong (name : Option CommandName) (place : Place) (text : List Char) :
    Except Stop Place :=
  let word := String.ofList (text.takeWhile (· != '='))
  let attached := match text.dropWhile (· != '=') with
    | _ :: value => some (String.ofList value)
    | [] => none
  match longOption? name word, attached with
  | some (.value option), some value => place.setValue option value
  | some (.value option), none => .ok { place with pending := some option }
  | some (.switch switch), none => place.turnOn switch
  | _, _ => .error .misuse

/-- Letters after one dash. What follows the letter of an option with a value
is that value, perhaps after an equals sign. -/
def readShort (name : Option CommandName) (place : Place) : List Char → Except Stop Place
  | [] => .ok place
  | letter :: rest =>
    match shortOption? name letter with
    | none => .error .misuse
    | some (.switch switch) =>
      match place.turnOn switch with
      | .error stop => .error stop
      | .ok changed => readShort name changed rest
    | some (.value option) =>
      match rest with
      | [] => .ok { place with pending := some option }
      | '=' :: value => place.setValue option (String.ofList value)
      | value => place.setValue option (String.ofList value)

/-- A word that is no option. Each command takes at most one, and it names a
file or a directory; the help takes the name of a command. -/
def readPlain (name : CommandName) (place : Place) (word : String) : Except Stop Place :=
  if place.words.isEmpty && (if name = .help then (CommandName.ofWord? word).isSome else !word.isEmpty)
  then .ok { place with words := place.words ++ [word] }
  else .error .misuse

/-- Whether a word looks like an option; a single dash does not. -/
def isOptionLike : List Char → Bool
  | '-' :: _ :: _ => true
  | _ => false

structure State where
  before : Place
  command : Option (CommandName × Place)

namespace State

def start : State := ⟨{}, none⟩

def name (state : State) : Option CommandName := state.command.map Prod.fst

def place (state : State) : Place := state.command.elim state.before Prod.snd

def withPlace (state : State) (place : Place) : State :=
  match state.command with
  | none => { state with before := place }
  | some (name, _) => { state with command := some (name, place) }

def readPlain (state : State) (word : String) : Except Stop State :=
  match state.command with
  | some (name, place) => (CommandLine.readPlain name place word).map state.withPlace
  | none =>
    if state.before.literal then .error .misuse
    else
      match CommandName.ofWord? word with
      | some name => .ok { state with command := some (name, {}) }
      | none => .error .misuse

def step (state : State) (word : String) : Except Stop State :=
  let place := state.place
  if place.literal || state.name = some .help then state.readPlain word
  else
    match place.pending, word.toList with
    | some option, text =>
      if isOptionLike text then .error .misuse else (place.setValue option word).map state.withPlace
    | none, '-' :: '-' :: [] => .ok (state.withPlace { place with literal := true })
    | none, '-' :: '-' :: text => (readLong state.name place text).map state.withPlace
    | none, '-' :: letter :: rest =>
      (readShort state.name place (letter :: rest)).map state.withPlace
    | none, _ => state.readPlain word

end State

/-- Quiet and verbose contradict each other, and no value may be missing. -/
def Place.isSettled (place : Place) : Bool :=
  place.pending.isNone && !(place.quiet && 0 < place.verbosity)

def commandOf (name : CommandName) (place : Place) : Except Stop Command :=
  match name, place.words, place.clojureVersion with
  | .project, [], _ => .ok (.project ⟨"."⟩)
  | .project, word :: _, _ => .ok (.project ⟨word⟩)
  | .clojure, word :: _, some version => .ok (.clojure ⟨word⟩ version)
  | .inspect, word :: _, _ => .ok (.inspect ⟨word⟩)
  | .help, _, _ => .error .help
  | _, _, _ => .error .misuse

/-- The options in effect: those after the name, or else those before it. -/
def optionsOf (before after : Place) : Options where
  output := (after.output.or before.output).map Path.mk
  settings := (after.settings.or before.settings).map Path.mk
  verbosity := if after.verbosity = 0 then before.verbosity else after.verbosity
  quiet := after.quiet || before.quiet

def finish (state : State) : Except Stop (Command × Options) :=
  match state.command with
  | none => .error .misuse
  | some (name, after) =>
    if !after.isSettled then .error .misuse
    else
      match commandOf name after with
      | .error stop => .error stop
      | .ok command =>
        if state.before.isSettled then .ok (command, optionsOf state.before after)
        else .error .misuse

/-- The command that the words ask for, or why none is run. -/
def read (words : List String) : Except Stop (Command × Options) :=
  match words.foldlM State.step State.start with
  | .error stop => .error stop
  | .ok state => finish state

end CommandLine

end VarDoc
