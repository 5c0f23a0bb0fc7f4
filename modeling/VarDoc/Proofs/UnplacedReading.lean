import VarDoc.Proofs.Relocation
import VarDoc.Proofs.Traversal

/-! Reading does not look at places. Taking the places away from what was lexed
and then reading gives what reading gives, without its places. How closely one
looks at lexical errors is left open: a `view` says what of them counts. -/

set_option autoImplicit false

namespace VarDoc

variable (view : LexError → LexError)

def LexItem.unplaced : LexItem → LexItem
  | .token lexed => .token ⟨lexed.kind, .nowhere, lexed.lexeme⟩
  | .fault error _ => .fault (view error) .nowhere

def ReadCause.viewed : ReadCause → ReadCause
  | .lexical error => .lexical (view error)
  | cause => cause

def ReadFault.unplaced (fault : ReadFault) : ReadFault := ⟨fault.cause.viewed view, 0⟩

def ReadError.unplaced (error : ReadError) : ReadError := ⟨error.cause.viewed view, ⟨0, 0⟩⟩

def Frame.unplaced : Frame → Frame
  | .group shape _ items => .group shape .nowhere (items.map Form.unplaced)
  | .map _ items => .map .nowhere (items.map Form.unplaced)
  | .mark before _ => .mark before .nowhere
  | .discard => .discard
  | .metadata _ => .metadata .nowhere
  | .target _ written => .target .nowhere written.unplaced
  | .namespacedMap name _ => .namespacedMap name .nowhere
  | .condition splicing _ => .condition splicing .nowhere
  | .branches splicing _ _ items => .branches splicing .nowhere .nowhere (items.map Form.unplaced)

def ReadState.unplaced : ReadState → ReadState
  | .reading frames => .reading (frames.map Frame.unplaced)
  | .done form => .done form.unplaced

namespace Form

mutual

theorem unplaced_eq : ∀ form : Form, form.unplaced = form.relocated .erasing
  | .atom _ _ metadata => by rw [unplaced, relocated, unplacedPairs_relocated metadata]; rfl
  | .group _ items _ metadata => by
    rw [unplaced, relocated, unplacedAll_relocated items, unplacedPairs_relocated metadata]; rfl
  | .map entries _ metadata => by
    rw [unplaced, relocated, unplacedPairs_relocated entries, unplacedPairs_relocated metadata]; rfl
  | .marked _ inner _ metadata => by
    rw [unplaced, relocated, unplaced_eq inner, unplacedPairs_relocated metadata]; rfl

theorem unplacedAll_relocated : ∀ forms : List Form, unplacedAll forms = relocatedAll .erasing forms
  | [] => rfl
  | form :: rest => by rw [unplacedAll, relocatedAll, unplaced_eq form, unplacedAll_relocated rest]

theorem unplacedPairs_relocated :
    ∀ entries : List (Form × Form), unplacedPairs entries = relocatedPairs .erasing entries
  | [] => rfl
  | (key, value) :: rest => by
    rw [unplacedPairs, relocatedPairs, unplaced_eq key, unplaced_eq value,
      unplacedPairs_relocated rest]

end

theorem unplaced_eq_relocated : unplaced = relocated .erasing := funext unplaced_eq

@[simp] theorem span_unplaced (form : Form) : form.unplaced.span = .nowhere := by cases form <;> rfl

@[simp] theorem metadata_unplaced (form : Form) :
    form.unplaced.metadata = form.metadata.map (Prod.map unplaced unplaced) := by
  cases form <;> exact unplacedPairs_eq _

@[simp] theorem symbol?_unplaced (form : Form) : form.unplaced.symbol? = form.symbol? := by
  cases form with
  | atom leaf => cases leaf <;> rfl
  | group | map | marked => rfl

@[simp] theorem keyword?_unplaced (form : Form) : form.unplaced.keyword? = form.keyword? := by
  rw [unplaced_eq_relocated, keyword?_relocated]

@[simp] theorem string?_unplaced (form : Form) : form.unplaced.string? = form.string? := by
  cases form with
  | atom leaf => cases leaf <;> rfl
  | group | map | marked => rfl

@[simp] theorem list?_unplaced (form : Form) :
    form.unplaced.list? = form.list?.map (List.map unplaced) := by
  cases form with
  | group shape items => cases shape <;> simp [unplaced, list?, unplacedAll_eq]
  | atom | map | marked => rfl

@[simp] theorem vector?_unplaced (form : Form) :
    form.unplaced.vector? = form.vector?.map (List.map unplaced) := by
  cases form with
  | group shape items => cases shape <;> simp [unplaced, vector?, unplacedAll_eq]
  | atom | map | marked => rfl

@[simp] theorem map?_unplaced (form : Form) :
    form.unplaced.map? = form.map?.map (List.map (Prod.map unplaced unplaced)) := by
  cases form with
  | map entries => exact congrArg some (unplacedPairs_eq entries)
  | atom | group | marked => rfl

@[simp] theorem isVector_unplaced (form : Form) : form.unplaced.isVector = form.isVector := by
  simp [isVector]

@[simp] theorem head?_unplaced (form : Form) : form.unplaced.head? = form.head? := by
  unfold head?
  rw [list?_unplaced]
  cases form.list? with
  | none => rfl
  | some items => cases items <;> simp

@[simp] theorem isCallTo_unplaced (form : Form) (name : String) :
    form.unplaced.isCallTo name = form.isCallTo name := by
  simp [isCallTo]

theorem withMetadata_unplaced (form : Form) (start : Span) (entries : List (Form × Form)) :
    form.unplaced.withMetadata .nowhere (entries.map (Prod.map unplaced unplaced)) =
      (form.withMetadata start entries).unplaced := by
  rw [unplaced_eq_relocated]
  exact withMetadata_relocated .erasing form start entries

end Form

theorem metadataEntries?_unplaced (form : Form) :
    metadataEntries? form.unplaced =
      (metadataEntries? form).map (List.map (Prod.map Form.unplaced Form.unplaced)) := by
  rw [Form.unplaced_eq_relocated]
  exact metadataEntries?_relocated .erasing form

theorem qualifyKey_unplaced (name : String) (key : Form) :
    qualifyKey name key.unplaced = (qualifyKey name key).unplaced := by
  rw [Form.unplaced_eq_relocated, qualifyKey_relocated]

theorem deliver_unplaced (frames : List Frame) (form : Form) :
    deliver (frames.map Frame.unplaced) form.unplaced =
      exceptBoth (ReadFault.unplaced view) ReadState.unplaced (deliver frames form) := by
  fun_induction deliver frames form with
  | case1 form | case2 shape start items below form | case3 | case4 | case6 | case7 | case12 => rfl
  | case5 mark start below form ih =>
    rw [List.map_cons, Frame.unplaced, deliver, Form.span_unplaced]
    exact ih
  | case8 start metadata below form entries denotes ih =>
    rw [List.map_cons, Frame.unplaced, deliver, metadataEntries?_unplaced, denotes]
    simp only [Option.map_some]
    rw [Form.withMetadata_unplaced form start]
    exact ih
  | case9 start metadata below form nothing =>
    rw [List.map_cons, Frame.unplaced, deliver, metadataEntries?_unplaced, nothing]
    simp only [Option.map_none, Form.span_unplaced]
    rfl
  | case10 name start below entries _ _ span ih =>
    rw [List.map_cons, Frame.unplaced, Form.unplaced, deliver, Form.unplacedPairs_eq, List.map_map]
    rw [Form.unplaced, Form.unplacedPairs_eq, List.map_map] at ih
    refine Eq.trans (congrArg (fun pairs => deliver _ (.map pairs .nowhere [])) ?_) ih
    exact List.map_congr_left fun entry _ => Prod.ext (qualifyKey_unplaced name entry.1) rfl
  | case11 name start below form span notMap =>
    cases form with
    | map => exact absurd rfl (notMap _ _ _)
    | atom | group | marked => rfl

theorem collect?_unplaced (forms : List Form) (frame : Frame) :
    frame.unplaced.collect? (forms.map Form.unplaced) =
      (frame.collect? forms).map Frame.unplaced := by
  cases frame <;> simp [Frame.unplaced, Frame.collect?]

theorem selectBranch?_unplaced (features : Features) (branches : List (Form × Form)) :
    selectBranch? features (branches.map (Prod.map Form.unplaced Form.unplaced)) =
      (selectBranch? features branches).map Form.unplaced := by
  rw [Form.unplaced_eq_relocated]
  exact selectBranch?_relocated .erasing features branches

theorem splicedForms_unplaced (form : Form) :
    splicedForms form.unplaced = (splicedForms form).map Form.unplaced := by
  rw [Form.unplaced_eq_relocated, splicedForms_relocated]

theorem closeBranches_unplaced (features : Features) (splicing : Bool) (start whole : Span)
    (items : List Form) (below : List Frame) :
    closeBranches features splicing .nowhere .nowhere (items.map Form.unplaced)
        (below.map Frame.unplaced) =
      exceptBoth (ReadFault.unplaced view) ReadState.unplaced
        (closeBranches features splicing start whole items below) := by
  unfold closeBranches
  rw [pairs?_map]
  cases pairs? items with
  | none => rfl
  | some branches =>
    simp only [Option.map_some, selectBranch?_unplaced]
    cases splicing with
    | false =>
      cases selectBranch? features branches with
      | none => rfl
      | some form => exact deliver_unplaced view below form
    | true =>
      have spliced : ((selectBranch? features branches).map Form.unplaced).elim [] splicedForms =
          ((selectBranch? features branches).elim [] splicedForms).map Form.unplaced := by
        cases selectBranch? features branches with
        | none => rfl
        | some form => exact splicedForms_unplaced form
      cases below with
      | nil => rfl
      | cons frame further =>
        simp only [List.map_cons, spliced, collect?_unplaced, if_true]
        cases frame.collect? ((selectBranch? features branches).elim [] splicedForms) <;> rfl

theorem closeFrame_unplaced (features : Features) (delimiter : Delimiter) (token : Span)
    (frames : List Frame) :
    closeFrame features delimiter .nowhere (frames.map Frame.unplaced) =
      exceptBoth (ReadFault.unplaced view) ReadState.unplaced
        (closeFrame features delimiter token frames) := by
  cases frames with
  | nil => rfl
  | cons frame below =>
    cases frame with
    | group shape start items =>
      simp only [List.map_cons, Frame.unplaced, closeFrame]
      split
      · have delivered := deliver_unplaced view below (.group shape items.reverse (start.merge token) [])
        rw [Form.unplaced, Form.unplacedAll_eq, List.map_reverse] at delivered
        exact delivered
      · rfl
    | map start items =>
      simp only [List.map_cons, Frame.unplaced, closeFrame]
      split
      · rw [← List.map_reverse, pairs?_map]
        cases pairs? items.reverse with
        | none => rfl
        | some entries =>
          have delivered := deliver_unplaced view below (.map entries (start.merge token) [])
          rw [Form.unplaced, Form.unplacedPairs_eq] at delivered
          exact delivered
      · rfl
    | branches splicing start opening items =>
      simp only [List.map_cons, Frame.unplaced, closeFrame]
      split
      · rw [← List.map_reverse]
        exact closeBranches_unplaced view features splicing start (opening.merge token) items.reverse below
      · rfl
    | mark | discard | metadata | target | namespacedMap | condition => rfl

theorem shift_unplaced (features : Features) (frames : List Frame) (token : Token) :
    shift features (frames.map Frame.unplaced) ⟨token.kind, .nowhere, token.lexeme⟩ =
      exceptBoth (ReadFault.unplaced view) ReadState.unplaced (shift features frames token) := by
  have atom (leaf : Atom) := deliver_unplaced view frames (.atom leaf token.span [])
  unfold shift
  cases token.kind with
  | closes delimiter => exact closeFrame_unplaced view features delimiter token.span frames
  | string =>
    dsimp only
    cases unescape (lexemeInside 1 token.lexeme) with
    | error character => rfl
    | ok text => exact atom (.string text)
  | symbolicValue | regex | character | number | keyword | symbol => exact atom _
  | opensGroup | opensMap | sigil | metadata | discard | conditional | namespacedMap | tagged => rfl

def unplacedRead (read : Except ReadFault Form × List LexItem) : Except ReadFault Form × List LexItem :=
  (exceptBoth (ReadFault.unplaced view) Form.unplaced read.1, read.2.map (LexItem.unplaced view))

theorem wanted_unplaced (frame : Frame) : frame.unplaced.wanted = frame.wanted := by
  cases frame with
  | group shape => cases shape <;> rfl
  | mark mark =>
    cases mark with
    | sigil sigil => cases sigil <;> rfl
    | tag => rfl
  | map | discard | metadata | target | namespacedMap | condition | branches => rfl

theorem awaitsList_unplaced (frames : List Frame) :
    awaitsList (frames.map Frame.unplaced) = awaitsList frames := by
  cases frames with
  | nil => rfl
  | cons frame => cases frame <;> rfl

theorem readFrom_fault (features : Features) (size : Nat) (frames : List Frame) (error : LexError)
    (span : Span) (rest : List LexItem) :
    readFrom features size frames (.fault error span :: rest) =
      some (.error ⟨.lexical error, span.start⟩, rest) := by
  cases frames with
  | nil => rfl
  | cons frame => cases frame <;> rfl

theorem readFrom_unplaced (features : Features) (size : Nat) (frames : List Frame)
    (items : List LexItem) :
    readFrom features 0 (frames.map Frame.unplaced) (items.map (LexItem.unplaced view)) =
      (readFrom features size frames items).map (unplacedRead view) := by
  induction items generalizing frames with
  | nil =>
    cases frames with
    | nil => rfl
    | cons frame below =>
      let ended (text : String) : Option (Except ReadFault Form × List LexItem) :=
        some (.error ⟨.unexpectedEnd text, 0⟩, [])
      have wanted := congrArg ended (wanted_unplaced frame)
      cases frame with
      | condition => rfl
      | _ => exact wanted
  | cons item rest ih =>
    cases item with
    | fault error span =>
      rw [List.map_cons, LexItem.unplaced, readFrom_fault, readFrom_fault]
      rfl
    | token lexed =>
      rw [List.map_cons, LexItem.unplaced]
      cases ready : awaitsList frames with
      | false =>
        rw [readFrom_token ready, readFrom_token ((awaitsList_unplaced frames).trans ready),
          shift_unplaced]
        rcases shift features frames lexed with fault | ⟨frames⟩ | ⟨form⟩
        · rfl
        · exact ih frames
        · rfl
      | true =>
        obtain ⟨splicing, start, below, rfl⟩ := awaitsList_eq_true ready
        by_cases opens : lexed.kind = .opensGroup .list
        · have opensUnplaced : (Token.mk lexed.kind .nowhere lexed.lexeme).kind = .opensGroup .list :=
            opens
          rw [readFrom_condition opens, ← ih]
          exact readFrom_condition opensUnplaced _
        · rw [readFrom, if_neg opens, List.map_cons, Frame.unplaced, readFrom, if_neg opens]
          rfl

theorem readOutcomes_unplaced (features : Features) (size : Nat) (items : List LexItem) :
    readOutcomes features 0 (items.map (LexItem.unplaced view)) =
      (readOutcomes features size items).map (exceptBoth (ReadFault.unplaced view) Form.unplaced) := by
  have next (items : List LexItem) : nextForm? features 0 (items.map (LexItem.unplaced view)) =
      (nextForm? features size items).map (unplacedRead view) :=
    readFrom_unplaced view features size [] items
  fun_induction readOutcomes features size items with
  | case1 items ended => rw [readOutcomes_none (by rw [next, ended]; rfl), List.map_nil]
  | case2 items outcome rest read ih =>
    rw [readOutcomes_some (by rw [next, read]; rfl), List.map_cons, ih]

variable {view}

/-- What reading yields for a text, without places, is what it yields for the
lexed items without theirs: an error is told by its cause, wherever it was located. -/
theorem readEach_located (features : Features) (text : String) :
    (readEach features text).map (exceptBoth (ReadError.unplaced view) Form.unplaced) =
      (readOutcomes features 0 ((lex text.toList).map (LexItem.unplaced view))).map
        (exceptBoth (fun fault => ⟨fault.cause, ⟨0, 0⟩⟩) id) := by
  rw [readOutcomes_unplaced view features (Text.width text.toList), readEach, List.map_map, List.map_map]
  refine List.map_congr_left fun outcome _ => ?_
  cases outcome <;> rfl

theorem readEach_unplaced (features : Features) {source other : String}
    (same : (lex source.toList).map (LexItem.unplaced view) =
      (lex other.toList).map (LexItem.unplaced view)) :
    (readEach features source).map (exceptBoth (ReadError.unplaced view) Form.unplaced) =
      (readEach features other).map (exceptBoth (ReadError.unplaced view) Form.unplaced) := by
  rw [readEach_located, readEach_located, same]

theorem readAll_of_readEach {features : Features} {source other : String}
    (same : (readEach features source).map (exceptBoth (ReadError.unplaced view) Form.unplaced) =
      (readEach features other).map (exceptBoth (ReadError.unplaced view) Form.unplaced)) :
    exceptBoth (ReadError.unplaced view) (List.map Form.unplaced) (readAll features source) =
      exceptBoth (ReadError.unplaced view) (List.map Form.unplaced) (readAll features other) := by
  have collected (outcomes : List (Except ReadError Form)) :
      exceptBoth (ReadError.unplaced view) (List.map Form.unplaced) (outcomes.mapM id) =
        (outcomes.map (exceptBoth (ReadError.unplaced view) Form.unplaced)).mapM id := by
    rw [exceptBoth_mapM, List.mapM_map]
    rfl
  rw [readAll, readAll, collected, collected, same]

theorem readAll_unplaced (features : Features) {source other : String}
    (same : (lex source.toList).map (LexItem.unplaced view) =
      (lex other.toList).map (LexItem.unplaced view)) :
    exceptBoth (ReadError.unplaced view) (List.map Form.unplaced) (readAll features source) =
      exceptBoth (ReadError.unplaced view) (List.map Form.unplaced) (readAll features other) :=
  readAll_of_readEach (readEach_unplaced features same)

end VarDoc
