import VarDoc.Form.Printer
import VarDoc.Proofs.Grammar
import VarDoc.Proofs.Traversal

/-! The reader accepts exactly what the grammar derives, and reads the forms
that it derives. In one direction a derivation drives the stack of frames: an
item leaves the stack as it found it, except for the forms it hands over. In
the other every frame on the stack accounts for the tokens since it was opened,
so that a form which leaves the stack has a derivation. -/

set_option autoImplicit false

namespace VarDoc

variable {features : Features} {size : Nat}

theorem pairs?_eq_some_iff {forms : List Form} {entries : List (Form × Form)} :
    pairs? forms = some entries ↔ entryForms entries = forms := by
  constructor
  · intro paired
    induction forms using pairs?.induct generalizing entries with
    | case1 =>
      cases paired
      rfl
    | case2 => cases paired
    | case3 first second rest ih =>
      obtain ⟨others, pairedRest, rfl⟩ := Option.map_eq_some_iff.1 paired
      exact congrArg (fun forms => first :: second :: forms) (ih pairedRest)
  · rintro rfl
    induction entries with
    | nil => rfl
    | cons entry rest ih => exact congrArg (Option.map (entry :: ·)) ih

theorem pairs?_entryForms (entries : List (Form × Form)) :
    pairs? (entryForms entries) = some entries := pairs?_eq_some_iff.2 rfl

theorem describes_iff {form : Form} {entries : List (Form × Form)} :
    Describes form entries ↔ metadataEntries? form = some entries := by
  constructor
  · intro describes
    cases describes <;> rfl
  · intro denotes
    cases form with
    | atom leaf =>
      cases leaf with
      | symbol => cases denotes; exact .symbol
      | string => cases denotes; exact .string
      | keyword => cases denotes; exact .keyword
      | _ => cases denotes
    | map => cases denotes; exact .map
    | group | marked => cases denotes

theorem enables_iff {key : Form} :
    Enables features key ↔ key.keyword?.any features.selects = true := by
  constructor
  · rintro ⟨name, span, metadata, rfl, on⟩
    simpa [Form.keyword?, Features.selects] using on
  · intro on
    cases key with
    | atom leaf span metadata =>
      cases leaf with
      | keyword name => exact ⟨name, span, metadata, rfl, by simpa [Form.keyword?, Features.selects] using on⟩
      | _ => cases on
    | group | map | marked => cases on

theorem selectBranch?_cons (key form : Form) (rest : List (Form × Form)) :
    selectBranch? features ((key, form) :: rest) =
      if key.keyword?.any features.selects then some form else selectBranch? features rest := by
  cases on : key.keyword?.any features.selects with
  | true => exact congrArg (Option.map Prod.snd) (List.find?_cons_of_pos on)
  | false => exact congrArg (Option.map Prod.snd) (List.find?_cons_of_neg (Bool.eq_false_iff.1 on))

theorem selects_iff {branches : List (Form × Form)} {selected : Option Form} :
    Selects features branches selected ↔ selectBranch? features branches = selected := by
  constructor
  · intro selects
    induction selects with
    | nothing => rfl
    | first enabled => rw [selectBranch?_cons, if_pos (enables_iff.1 enabled)]
    | next passed _ ih => rw [selectBranch?_cons, if_neg (mt enables_iff.2 passed), ih]
  · rintro rfl
    induction branches with
    | nil => exact .nothing
    | cons branch rest ih =>
      rw [selectBranch?_cons]
      split
      next on => exact .first (enables_iff.2 on)
      next off => exact .next (mt enables_iff.1 off) ih

theorem splices_iff {selected : Option Form} {forms : List Form} :
    Splices selected forms ↔ selected.elim [] splicedForms = forms := by
  constructor
  · intro splices
    cases splices with
    | nothing | list | vector => rfl
    | @form form notList notVector =>
      cases form with
      | group shape =>
        cases shape with
        | list => cases notList
        | vector => cases notVector
        | set | function => rfl
      | atom | map | marked => rfl
  · rintro rfl
    cases selected with
    | none => exact .nothing
    | some form =>
      cases form with
      | group shape =>
        cases shape with
        | list => exact .list
        | vector => exact .vector
        | set | function => exact .form rfl rfl
      | atom | map | marked => exact .form rfl rfl
def lexedItems (tokens : List Token) : List LexItem := tokens.map .token

@[simp] theorem lexedItems_nil : lexedItems [] = [] := rfl

@[simp] theorem lexedItems_cons (token : Token) (tokens : List Token) :
    lexedItems (token :: tokens) = .token token :: lexedItems tokens := rfl

@[simp] theorem lexedItems_append (first second : List Token) :
    lexedItems (first ++ second) = lexedItems first ++ lexedItems second := List.map_append

def resume (features : Features) (size : Nat) (rest : List LexItem) :
    Except ReadFault ReadState → Option (Except ReadFault Form × List LexItem)
  | .error fault => some (.error fault, rest)
  | .ok (.done form) => some (.ok form, rest)
  | .ok (.reading frames) => readFrom features size frames rest

theorem readFrom_token {frames : List Frame} (ready : awaitsList frames = false) (token : Token)
    (rest : List LexItem) :
    readFrom features size frames (.token token :: rest) =
      resume features size rest (shift features frames token) := by
  cases frames with
  | nil =>
    rw [readFrom]
    · rcases shift features [] token with fault | ⟨frames⟩ | ⟨form⟩ <;> rfl
    · simp
  | cons frame below =>
    cases frame with
    | condition => contradiction
    | _ =>
      rw [readFrom]
      · rcases shift features _ token with fault | ⟨frames⟩ | ⟨form⟩ <;> rfl
      · simp

theorem readFrom_condition {splicing : Bool} {start : Span} {below : List Frame} {token : Token}
    (opens : token.kind = .opensGroup .list) (rest : List LexItem) :
    readFrom features size (.condition splicing start :: below) (.token token :: rest) =
      readFrom features size (.branches splicing start token.span [] :: below) rest := by
  rw [readFrom, if_pos opens]

theorem shift_atom {token : Token} {leaf : Atom} (denotes : token.atom? = some leaf)
    (frames : List Frame) :
    shift features frames token = deliver frames (.atom leaf token.span []) := by
  unfold Token.atom? at denotes
  unfold shift
  split at denotes
  case h_2 kind =>
    rw [kind]
    cases unescaped : unescape (lexemeInside 1 token.lexeme) with
    | error character => simp [unescaped, Except.toOption] at denotes
    | ok text =>
      rw [unescaped] at denotes
      cases denotes
      rfl
  case h_8 => contradiction
  all_goals
    next kind =>
      cases denotes
      rw [kind]

theorem shift_mark {token : Token} {mark : Mark} (marks : token.mark? = some mark)
    (frames : List Frame) :
    shift features frames token = .ok (.reading (.mark mark token.span :: frames)) := by
  unfold Token.mark? at marks
  unfold shift
  split at marks
  case h_3 => contradiction
  all_goals
    next kind =>
      cases marks
      rw [kind]

/-- Hands over what an item reads as. Only a frame that collects takes several
forms at once. -/
def emit (frames : List Frame) (forms : List Form) : Except ReadFault ReadState :=
  match forms, frames with
  | [], _ => .ok (.reading frames)
  | [form], _ => deliver frames form
  | forms, top :: below => .ok (.reading (((top.collect? forms).getD top) :: below))
  | _, [] => .ok (.reading frames)

def Accepts (collecting : Bool) (frames : List Frame) : Prop :=
  awaitsList frames = false ∧
    (collecting = true → ∃ top below, frames = top :: below ∧ ∀ forms, (top.collect? forms).isSome)

theorem emit_collect {top filled : Frame} {below : List Frame} {forms : List Form}
    (collected : top.collect? forms = some filled) :
    emit (top :: below) forms = .ok (.reading (filled :: below)) := by
  match forms with
  | [] =>
    cases top <;> simp [Frame.collect?] at collected <;> subst collected <;> rfl
  | [form] =>
    cases top <;> simp [Frame.collect?] at collected <;> subst collected <;> rfl
  | first :: second :: rest => simp only [emit, collected, Option.getD_some]

theorem accepts_of_collect {collecting : Bool} {top filled : Frame} {forms : List Form}
    (collected : top.collect? forms = some filled) (below : List Frame) :
    Accepts collecting (top :: below) := by
  cases top with
  | group => exact ⟨rfl, fun _ => ⟨_, below, rfl, fun _ => rfl⟩⟩
  | map => exact ⟨rfl, fun _ => ⟨_, below, rfl, fun _ => rfl⟩⟩
  | branches => exact ⟨rfl, fun _ => ⟨_, below, rfl, fun _ => rfl⟩⟩
  | _ => contradiction

theorem collect?_append {top filled : Frame} {first second : List Form}
    (collected : top.collect? (first ++ second) = some filled) :
    ∃ between, top.collect? first = some between ∧ between.collect? second = some filled := by
  cases top with
  | group shape start items =>
    cases collected
    exact ⟨_, rfl, by simp [Frame.collect?]⟩
  | map start items =>
    cases collected
    exact ⟨_, rfl, by simp [Frame.collect?]⟩
  | branches splicing start opening items =>
    cases collected
    exact ⟨_, rfl, by simp [Frame.collect?]⟩
  | _ => contradiction

def Drives (features : Features) (size : Nat) (tokens : List Token) (forms : List Form) :
    Phrase → Prop
  | .item collecting => ∀ frames rest, Accepts collecting frames →
      readFrom features size frames (lexedItems tokens ++ rest) =
        resume features size rest (emit frames forms)
  | .items _ => ∀ top filled below rest, top.collect? forms = some filled →
      readFrom features size (top :: below) (lexedItems tokens ++ rest) =
        readFrom features size (filled :: below) rest
  | .one => ∀ frames rest, awaitsList frames = false →
      readFrom features size frames (lexedItems tokens ++ rest) =
        resume features size rest (emit frames forms)

theorem readFrom_opens {frames : List Frame} (ready : awaitsList frames = false) {token : Token}
    {frame : Frame} (opened : shift features frames token = .ok (.reading (frame :: frames)))
    (rest : List LexItem) :
    readFrom features size frames (.token token :: rest) =
      readFrom features size (frame :: frames) rest := by
  rw [readFrom_token ready, opened]
  rfl

theorem closeBranches_selecting {frames : List Frame} {branches : List (Form × Form)}
    {selected : Option Form} (selects : Selects features branches selected) (start whole : Span) :
    closeBranches features false start whole (entryForms branches) frames =
      emit frames selected.toList := by
  unfold closeBranches
  simp only [pairs?_entryForms, selects_iff.1 selects, Bool.false_eq_true, if_false]
  cases selected <;> rfl

theorem closeBranches_splicing {top : Frame} {below : List Frame} {branches : List (Form × Form)}
    {selected : Option Form} {forms : List Form} (selects : Selects features branches selected)
    (spliced : Splices selected forms) (collects : ∀ forms, (top.collect? forms).isSome)
    (start whole : Span) :
    closeBranches features true start whole (entryForms branches) (top :: below) =
      emit (top :: below) forms := by
  obtain ⟨filled, collected⟩ := Option.isSome_iff_exists.1 (collects forms)
  unfold closeBranches
  rw [pairs?_entryForms, emit_collect collected]
  simp only [if_true, selects_iff.1 selects, splices_iff.1 spliced, collected]

section Collections

variable {body : List Token} {forms : List Form} {collecting : Bool} {frames : List Frame}
  {outcome : Except ReadFault ReadState}

theorem Drives.closed (inside : Drives features size body forms (.items collecting))
    {frame filled : Frame} {closing : Token} (collected : frame.collect? forms = some filled)
    (ready : awaitsList (filled :: frames) = false)
    (closes : shift features (filled :: frames) closing = outcome) (rest : List LexItem) :
    readFrom features size (frame :: frames) (lexedItems (body ++ [closing]) ++ rest) =
      resume features size rest outcome := by
  rw [lexedItems_append, List.append_assoc, inside _ _ _ _ collected]
  rw [lexedItems_cons, lexedItems_nil, List.cons_append, List.nil_append, readFrom_token ready, closes]

theorem Drives.bracketed (inside : Drives features size body forms (.items collecting))
    (ready : awaitsList frames = false) {frame filled : Frame} {opening closing : Token}
    (opens : shift features frames opening = .ok (.reading (frame :: frames)))
    (collected : frame.collect? forms = some filled)
    (filledReady : awaitsList (filled :: frames) = false)
    (closes : shift features (filled :: frames) closing = outcome) (rest : List LexItem) :
    readFrom features size frames (lexedItems (opening :: (body ++ [closing])) ++ rest) =
      resume features size rest outcome := by
  rw [lexedItems_cons, List.cons_append, readFrom_opens ready opens,
    inside.closed collected filledReady closes]

theorem Drives.branches (inside : Drives features size body forms (.items collecting))
    (ready : awaitsList frames = false) {splicing : Bool} {token opening closing : Token}
    (marks : token.kind = .conditional splicing) (opens : opening.kind = .opensGroup .list)
    (closes : closing.kind = .closes .paren) (rest : List LexItem) :
    readFrom features size frames (lexedItems (token :: opening :: (body ++ [closing])) ++ rest) =
      resume features size rest (closeBranches features splicing token.span
        (opening.span.merge closing.span) forms frames) := by
  have opened : shift features frames token =
      .ok (.reading (.condition splicing token.span :: frames)) := by
    unfold shift
    rw [marks]
  have closed : shift features (.branches splicing token.span opening.span forms.reverse :: frames)
      closing = closeBranches features splicing token.span (opening.span.merge closing.span) forms
        frames := by
    unfold shift
    rw [closes]
    simp only [closeFrame, if_true, List.reverse_reverse]
  rw [lexedItems_cons, lexedItems_cons, List.cons_append, List.cons_append,
    readFrom_opens ready opened, readFrom_condition opens]
  exact inside.closed (by simp [Frame.collect?]) rfl closed rest

end Collections

/-- A derivation drives the reader, whatever it is in the middle of. -/
theorem drives_of_derives {phrase : Phrase} {tokens : List Token} {forms : List Form}
    (derives : Derives features phrase tokens forms) :
    Drives features size tokens forms phrase := by
  induction derives with
  | atom denotes =>
    intro frames rest accepts
    rw [lexedItems_cons, List.cons_append, readFrom_token accepts.1, shift_atom denotes]
    rfl
  | @group _ shape opening closing body forms opens _ closes ih =>
    intro frames rest accepts
    have opened : shift features frames opening =
        .ok (.reading (.group shape opening.span [] :: frames)) := by
      unfold shift; rw [opens]
    have closed : shift features (.group shape opening.span forms.reverse :: frames) closing =
        deliver frames (.group shape forms (opening.span.merge closing.span) []) := by
      unfold shift; rw [closes]; simp [closeFrame]
    exact ih.bracketed accepts.1 opened (by simp [Frame.collect?]) rfl closed rest
  | @map _ opening closing body entries opens _ closes ih =>
    intro frames rest accepts
    have opened : shift features frames opening =
        .ok (.reading (.map opening.span [] :: frames)) := by
      unfold shift; rw [opens]
    have closed : shift features (.map opening.span (entryForms entries).reverse :: frames) closing =
        deliver frames (.map entries (opening.span.merge closing.span) []) := by
      unfold shift; rw [closes]; simp [closeFrame, pairs?_entryForms]
    exact ih.bracketed accepts.1 opened (by simp [Frame.collect?]) rfl closed rest
  | marked marks _ ih =>
    intro frames rest accepts
    rw [lexedItems_cons, List.cons_append, readFrom_opens accepts.1 (shift_mark marks frames),
      ih _ rest rfl]
    rfl
  | @metadata _ token first second description form entries marks _ denotes _ ihDescription ihTarget =>
    intro frames rest accepts
    have opened : shift features frames token =
        .ok (.reading (.metadata token.span :: frames)) := by
      unfold shift; rw [marks]
    have described : emit (.metadata token.span :: frames) [description] =
        .ok (.reading (.target token.span description :: frames)) := rfl
    have attached : emit (.target token.span description :: frames) [form] =
        emit frames [form.withMetadata token.span entries] := by
      simp only [emit, deliver, describes_iff.1 denotes]
    simp only [lexedItems_cons, lexedItems_append, List.cons_append, List.append_assoc]
    rw [readFrom_opens accepts.1 opened, ihDescription _ _ rfl, described, resume,
      ihTarget _ rest rfl, attached]
  | @namespacedMap _ token tokens entries span metadata marks _ ih =>
    intro frames rest accepts
    have opened : shift features frames token =
        .ok (.reading (.namespacedMap token.spaceName token.span :: frames)) := by
      unfold shift; rw [marks]; rfl
    rw [lexedItems_cons, List.cons_append, readFrom_opens accepts.1 opened, ih _ rest rfl]
    rfl
  | @discard _ token tokens form marks _ ih =>
    intro frames rest accepts
    have opened : shift features frames token = .ok (.reading (.discard :: frames)) := by
      unfold shift; rw [marks]
    rw [lexedItems_cons, List.cons_append, readFrom_opens accepts.1 opened, ih _ rest rfl]
    rfl
  | conditional marks opens _ closes selects ih =>
    intro frames rest accepts
    rw [Drives.branches ih accepts.1 marks opens closes, closeBranches_selecting selects]
  | splice marks opens _ closes selects spliced ih =>
    intro frames rest accepts
    obtain ⟨top, below, rfl, collects⟩ := accepts.2 rfl
    rw [Drives.branches ih accepts.1 marks opens closes,
      closeBranches_splicing selects spliced collects]
  | nil =>
    intro top filled below rest collected
    have same : emit (top :: below) [] = .ok (.reading (filled :: below)) := emit_collect collected
    simp only [emit, Except.ok.injEq, ReadState.reading.injEq] at same
    rw [lexedItems_nil, List.nil_append, same]
  | cons _ _ ihHead ihTail =>
    intro top filled below rest collected
    obtain ⟨between, first, second⟩ := collect?_append collected
    rw [lexedItems_append, List.append_assoc, ihHead _ _ (accepts_of_collect first below),
      emit_collect first, resume, ihTail _ _ _ _ second]
  | here _ ih =>
    intro frames rest ready
    exact ih frames rest ⟨ready, fun impossible => by contradiction⟩
  | later _ _ ihSkipped ih =>
    intro frames rest ready
    rw [lexedItems_append, List.append_assoc,
      ihSkipped frames _ ⟨ready, fun impossible => by contradiction⟩, emit, resume]
    exact ih frames rest ready

theorem Derives.append {collecting : Bool} {first second : List Token} {forms others : List Form}
    (front : Derives features (.items collecting) first forms)
    (back : Derives features (.items collecting) second others) :
    Derives features (.items collecting) (first ++ second) (forms ++ others) := by
  generalize phrase : Phrase.items collecting = kind at front
  induction front with
  | nil =>
    cases phrase
    exact back
  | cons head _ _ ih =>
    cases phrase
    rw [List.append_assoc, List.append_assoc]
    exact .cons head (ih rfl)
  | _ => cases phrase

theorem Derives.single {collecting : Bool} {tokens : List Token} {forms : List Form}
    (item : Derives features (.item collecting) tokens forms) :
    Derives features (.items collecting) tokens forms := by
  simpa using Derives.cons item .nil

theorem Derives.snoc {collecting : Bool} {tokens last : List Token} {forms others : List Form}
    (front : Derives features (.items collecting) tokens forms)
    (item : Derives features (.item collecting) last others) :
    Derives features (.items collecting) (tokens ++ last) (forms ++ others) :=
  front.append item.single

theorem Derives.items_of_one {tokens : List Token} {forms : List Form}
    (one : Derives features .one tokens forms) : Derives features (.items false) tokens forms := by
  generalize phrase : Phrase.one = kind at one
  induction one with
  | here item => exact item.single
  | later nothing _ _ ih => exact .cons nothing (ih rfl)
  | _ => cases phrase

theorem Derives.after_nothing {skipped tokens : List Token} {form : Form}
    (nothing : Derives features (.items false) skipped [])
    (one : Derives features .one tokens [form]) :
    Derives features .one (skipped ++ tokens) [form] := by
  generalize phrase : Phrase.items false = kind at nothing
  generalize empty : ([] : List Form) = forms at nothing
  induction nothing with
  | nil => exact one
  | cons head _ _ ih =>
    cases phrase
    obtain ⟨rfl, rfl⟩ := List.append_eq_nil_iff.1 empty.symm
    rw [List.append_assoc]
    exact .later head (ih rfl rfl)
  | _ => cases phrase

/-- The frame was opened by the first of the tokens, and the rest of them is
what it has read since. -/
inductive Frame.Holds (features : Features) : Frame → List Token → Prop where
  | group {shape : Shape} {opening : Token} {body : List Token} {items : List Form}
    (opens : opening.kind = .opensGroup shape)
    (inside : Derives features (.items true) body items.reverse) :
    Holds features (.group shape opening.span items) (opening :: body)
  | map {opening : Token} {body : List Token} {items : List Form}
    (opens : opening.kind = .opensMap)
    (inside : Derives features (.items true) body items.reverse) :
    Holds features (.map opening.span items) (opening :: body)
  | mark {token : Token} {mark : Mark} {skipped : List Token} (marks : token.mark? = some mark)
    (nothing : Derives features (.items false) skipped []) :
    Holds features (.mark mark token.span) (token :: skipped)
  | discard {token : Token} {skipped : List Token} (marks : token.kind = .discard)
    (nothing : Derives features (.items false) skipped []) :
    Holds features .discard (token :: skipped)
  | metadata {token : Token} {skipped : List Token} (marks : token.kind = .metadata)
    (nothing : Derives features (.items false) skipped []) :
    Holds features (.metadata token.span) (token :: skipped)
  | target {token : Token} {first skipped : List Token} {description : Form}
    (marks : token.kind = .metadata) (described : Derives features .one first [description])
    (nothing : Derives features (.items false) skipped []) :
    Holds features (.target token.span description) (token :: (first ++ skipped))
  | namespacedMap {token : Token} {skipped : List Token} (marks : token.kind = .namespacedMap)
    (nothing : Derives features (.items false) skipped []) :
    Holds features (.namespacedMap token.spaceName token.span) (token :: skipped)
  | condition {token : Token} {splicing : Bool} (marks : token.kind = .conditional splicing) :
    Holds features (.condition splicing token.span) [token]
  | branches {token opening : Token} {splicing : Bool} {body : List Token} {items : List Form}
    (marks : token.kind = .conditional splicing) (opens : opening.kind = .opensGroup .list)
    (inside : Derives features (.items true) body items.reverse) :
    Holds features (.branches splicing token.span opening.span items) (token :: opening :: body)

inductive StackHolds (features : Features) : List Frame → List Token → Prop where
  | bottom {skipped : List Token} (nothing : Derives features (.items false) skipped []) :
    StackHolds features [] skipped
  | frame {top : Frame} {below : List Frame} {before tokens : List Token}
    (rest : StackHolds features below before) (ready : awaitsList below = false)
    (held : top.Holds features tokens) : StackHolds features (top :: below) (before ++ tokens)

def ReadState.Holds (features : Features) (tokens : List Token) : ReadState → Prop
  | .reading frames => StackHolds features frames tokens
  | .done form => Derives features .one tokens [form]

theorem Frame.Holds.skip {frame : Frame} {tokens read : List Token}
    (held : frame.Holds features tokens) (ready : awaitsList [frame] = false)
    (item : ∀ collecting, Derives features (.item collecting) read []) :
    frame.Holds features (tokens ++ read) := by
  cases held with
  | group opens inside => exact .group opens (by simpa using inside.snoc (item true))
  | map opens inside => exact .map opens (by simpa using inside.snoc (item true))
  | mark marks nothing => exact .mark marks (by simpa using nothing.snoc (item false))
  | discard marks nothing => exact .discard marks (by simpa using nothing.snoc (item false))
  | metadata marks nothing => exact .metadata marks (by simpa using nothing.snoc (item false))
  | target marks described nothing =>
    rw [List.cons_append, List.append_assoc]
    exact .target marks described (by simpa using nothing.snoc (item false))
  | namespacedMap marks nothing =>
    exact .namespacedMap marks (by simpa using nothing.snoc (item false))
  | condition marks => contradiction
  | branches marks opens inside =>
    exact .branches marks opens (by simpa using inside.snoc (item true))

theorem Frame.Holds.collect {frame filled : Frame} {tokens read : List Token} {forms : List Form}
    (held : frame.Holds features tokens) (collected : frame.collect? forms = some filled)
    (item : Derives features (.item true) read forms) : filled.Holds features (tokens ++ read) := by
  cases held with
  | group opens inside =>
    cases collected
    exact .group opens (by simpa using inside.snoc item)
  | map opens inside =>
    cases collected
    exact .map opens (by simpa using inside.snoc item)
  | branches marks opens inside =>
    cases collected
    exact .branches marks opens (by simpa using inside.snoc item)
  | _ => contradiction

theorem StackHolds.skip {frames : List Frame} {tokens read : List Token}
    (held : StackHolds features frames tokens) (ready : awaitsList frames = false)
    (item : ∀ collecting, Derives features (.item collecting) read []) :
    StackHolds features frames (tokens ++ read) := by
  cases held with
  | bottom nothing => exact .bottom (by simpa using nothing.snoc (item false))
  | @frame top below _ _ rest belowReady inner =>
    rw [List.append_assoc]
    refine .frame rest belowReady (inner.skip ?_ item)
    cases top <;> exact ready

/-- A finished form finds its place: the frame on top takes it, or is finished
by it and makes a form of its own. -/
theorem deliver_holds {frames : List Frame} {tokens read : List Token} {form : Form}
    {state : ReadState} (held : StackHolds features frames tokens)
    (ready : awaitsList frames = false)
    (item : ∀ collecting, Derives features (.item collecting) read [form])
    (delivered : deliver frames form = .ok state) : state.Holds features (tokens ++ read) := by
  induction held generalizing form read with
  | bottom nothing =>
    cases delivered
    exact nothing.after_nothing (.here (item false))
  | @frame top below before tokens rest belowReady inner ih =>
    rw [List.append_assoc]
    cases inner with
    | group opens inside =>
      cases delivered
      exact .frame rest belowReady (Frame.Holds.collect (.group opens inside) rfl (item true))
    | map opens inside =>
      cases delivered
      exact .frame rest belowReady (Frame.Holds.collect (.map opens inside) rfl (item true))
    | branches marks opens inside =>
      cases delivered
      exact .frame rest belowReady (Frame.Holds.collect (.branches marks opens inside) rfl (item true))
    | mark marks nothing =>
      refine ih belowReady (fun collecting => ?_) delivered
      exact .marked marks (nothing.after_nothing (.here (item false)))
    | discard marks nothing =>
      cases delivered
      refine rest.skip belowReady fun collecting => ?_
      exact .discard marks (nothing.after_nothing (.here (item false)))
    | metadata marks nothing =>
      cases delivered
      have described := nothing.after_nothing (.here (item false))
      refine .frame rest belowReady ?_
      simpa using Frame.Holds.target marks described .nil
    | target marks described nothing =>
      simp only [deliver] at delivered
      split at delivered
      next entries denotes =>
        refine ih belowReady (fun collecting => ?_) delivered
        rw [List.cons_append, List.append_assoc]
        exact .metadata marks described (describes_iff.2 denotes) (nothing.after_nothing (.here (item false)))
      · cases delivered
    | namespacedMap marks nothing =>
      simp only [deliver] at delivered
      split at delivered
      next entries span metadata =>
        refine ih belowReady (fun collecting => ?_) delivered
        exact .namespacedMap marks (nothing.after_nothing (.here (item false)))
      · cases delivered
    | condition marks => contradiction

theorem closeBranches_holds {below : List Frame} {before body : List Token}
    {token opening closing : Token} {splicing : Bool} {forms : List Form} {state : ReadState}
    (rest : StackHolds features below before) (ready : awaitsList below = false)
    (marks : token.kind = .conditional splicing) (opens : opening.kind = .opensGroup .list)
    (inside : Derives features (.items true) body forms) (closes : closing.kind = .closes .paren)
    {whole : Span}
    (closed : closeBranches features splicing token.span whole forms below = .ok state) :
    state.Holds features (before ++ (token :: opening :: (body ++ [closing]))) := by
  unfold closeBranches at closed
  split at closed
  · cases closed
  next branches paired =>
    obtain rfl := pairs?_eq_some_iff.1 paired
    have selects := (@selects_iff features branches _).2 rfl
    cases splicing with
    | true =>
      have item := Derives.splice marks opens inside closes selects (splices_iff.2 rfl)
      simp only [if_true] at closed
      split at closed
      next top further =>
        split at closed
        next filled collected =>
          cases closed
          cases rest with
          | frame further topReady held =>
            simp only [ReadState.Holds, List.append_assoc]
            exact .frame further topReady (held.collect collected item)
        · cases closed
      · cases closed
    | false =>
      have item (collecting : Bool) : Derives features (.item collecting)
          (token :: opening :: (body ++ [closing])) (selectBranch? features branches).toList :=
        .conditional marks opens inside closes selects
      simp only [Bool.false_eq_true, if_false] at closed
      split at closed
      next form selected =>
        rw [selected] at item
        exact deliver_holds rest ready item closed
      next selected =>
        rw [selected] at item
        cases closed
        exact rest.skip ready item

theorem closeFrame_holds {frames : List Frame} {tokens : List Token} {closing : Token}
    {delimiter : Delimiter} {state : ReadState} (held : StackHolds features frames tokens)
    (closes : closing.kind = .closes delimiter)
    (closed : closeFrame features delimiter closing.span frames = .ok state) :
    state.Holds features (tokens ++ [closing]) := by
  cases held with
  | bottom => cases closed
  | frame rest ready inner =>
    rw [List.append_assoc]
    cases inner with
    | group opens inside =>
      simp only [closeFrame] at closed
      split at closed
      next own =>
        subst own
        exact deliver_holds rest ready (fun _ => .group opens inside closes) closed
      · cases closed
    | map opens inside =>
      simp only [closeFrame] at closed
      split at closed
      next own =>
        subst own
        split at closed
        next entries paired =>
          rw [← pairs?_eq_some_iff.1 paired] at inside
          exact deliver_holds rest ready (fun _ => .map opens inside closes) closed
        · cases closed
      · cases closed
    | branches marks opens inside =>
      simp only [closeFrame] at closed
      split at closed
      next own =>
        subst own
        exact closeBranches_holds rest ready marks opens inside closes closed
      · cases closed
    | _ => cases closed

theorem shift_holds {frames : List Frame} {tokens : List Token} {token : Token}
    {state : ReadState} (held : StackHolds features frames tokens)
    (ready : awaitsList frames = false) (shifted : shift features frames token = .ok state) :
    state.Holds features (tokens ++ [token]) := by
  have delivers {leaf : Atom} (denotes : token.atom? = some leaf) :
      state.Holds features (tokens ++ [token]) := by
    rw [shift_atom denotes] at shifted
    exact deliver_holds held ready (fun _ => .atom denotes) shifted
  have opens {frame : Frame} (holds : frame.Holds features [token])
      (opened : shift features frames token = .ok (.reading (frame :: frames))) :
      state.Holds features (tokens ++ [token]) := by
    rw [opened] at shifted
    cases shifted
    exact .frame held ready holds
  cases kind : token.kind with
  | opensGroup shape => exact opens (.group kind .nil) (by unfold shift; rw [kind])
  | opensMap => exact opens (.map kind .nil) (by unfold shift; rw [kind])
  | closes delimiter =>
    unfold shift at shifted
    rw [kind] at shifted
    exact closeFrame_holds held kind shifted
  | sigil sigil =>
    have marks : token.mark? = some (.sigil sigil) := by unfold Token.mark?; rw [kind]
    exact opens (.mark marks .nil) (shift_mark marks frames)
  | tagged =>
    have marks : token.mark? = some (.tag (lexemeAfter 1 token.lexeme)) := by
      unfold Token.mark?; rw [kind]
    exact opens (.mark marks .nil) (shift_mark marks frames)
  | metadata => exact opens (.metadata kind .nil) (by unfold shift; rw [kind])
  | discard => exact opens (.discard kind .nil) (by unfold shift; rw [kind])
  | conditional splicing => exact opens (.condition kind) (by unfold shift; rw [kind])
  | namespacedMap => exact opens (.namespacedMap kind .nil) (by unfold shift; rw [kind]; rfl)
  | string =>
    cases unescaped : unescape (lexemeInside 1 token.lexeme) with
    | ok text =>
      have denotes : token.atom? = some (.string text) := by
        unfold Token.atom?; rw [kind, unescaped]; rfl
      exact delivers denotes
    | error character =>
      unfold shift at shifted
      rw [kind, unescaped] at shifted
      cases shifted
  | symbolicValue => exact delivers (by unfold Token.atom?; rw [kind])
  | regex => exact delivers (by unfold Token.atom?; rw [kind])
  | character => exact delivers (by unfold Token.atom?; rw [kind])
  | number => exact delivers (by unfold Token.atom?; rw [kind])
  | keyword => exact delivers (by unfold Token.atom?; rw [kind])
  | symbol => exact delivers (by unfold Token.atom?; rw [kind])

/-- What reading on from a stack says of the tokens it took: those of one form,
or, where the source ends, of items that read as nothing. -/
def Accounted (features : Features) (tokens : List Token) (items : List LexItem) :
    Option (Except ReadFault Form × List LexItem) → Prop
  | none => ∃ read, items = lexedItems read ∧ DerivesProgram features (tokens ++ read) []
  | some (.ok form, rest) =>
    ∃ read, items = lexedItems read ++ rest ∧ Derives features .one (tokens ++ read) [form]
  | some (.error _, _) => True

theorem Accounted.token {tokens : List Token} {token : Token} {items : List LexItem}
    {outcome : Option (Except ReadFault Form × List LexItem)}
    (accounted : Accounted features (tokens ++ [token]) items outcome) :
    Accounted features tokens (.token token :: items) outcome := by
  match outcome with
  | none =>
    obtain ⟨read, rfl, derives⟩ := accounted
    exact ⟨token :: read, rfl, by simpa using derives⟩
  | some (.ok form, rest) =>
    obtain ⟨read, rfl, derives⟩ := accounted
    exact ⟨token :: read, rfl, by simpa using derives⟩
  | some (.error _, _) => trivial

theorem awaitsList_eq_false {frames : List Frame}
    (other : ∀ splicing start below, frames = .condition splicing start :: below → False) :
    awaitsList frames = false := by
  unfold awaitsList
  split
  next splicing start below => exact absurd rfl (other splicing start below)
  · rfl

theorem readFrom_accounted {frames : List Frame} {tokens : List Token} {items : List LexItem}
    (held : StackHolds features frames tokens) :
    Accounted features tokens items (readFrom features size frames items) := by
  fun_induction readFrom features size frames items generalizing tokens with
  | case1 =>
    cases held with
    | bottom nothing => exact ⟨[], rfl, by simpa using nothing⟩
  | case2 => trivial
  | case3 => trivial
  | case4 => trivial
  | case5 splicing start below lexed rest opens ih =>
    cases held with
    | frame further ready inner =>
      cases inner with
      | condition marks =>
        refine Accounted.token (ih ?_)
        rw [List.append_assoc]
        exact .frame further ready (.branches marks opens .nil)
  | case6 => trivial
  | case7 => trivial
  | case8 frames lexed rest notAwaiting form shifted =>
    exact ⟨[lexed], rfl, shift_holds held (awaitsList_eq_false notAwaiting) shifted⟩
  | case9 frames lexed rest notAwaiting opened shifted ih =>
    exact Accounted.token (ih (shift_holds held (awaitsList_eq_false notAwaiting) shifted))

theorem nextForm?_accounted (features : Features) (size : Nat) (items : List LexItem) :
    Accounted features [] items (nextForm? features size items) :=
  readFrom_accounted (.bottom .nil)

theorem readOutcomes_none {items : List LexItem} (ended : nextForm? features size items = none) :
    readOutcomes features size items = [] := by
  rw [readOutcomes]
  split
  · rfl
  next read => rw [ended] at read; cases read

theorem readOutcomes_some {items rest : List LexItem} {outcome : Except ReadFault Form}
    (read : nextForm? features size items = some (outcome, rest)) :
    readOutcomes features size items = outcome :: readOutcomes features size rest := by
  rw [readOutcomes]
  split
  next ended => rw [read] at ended; cases ended
  next again =>
    rw [read] at again
    cases again
    rfl

theorem readOutcomes_congr {items others : List LexItem}
    (same : nextForm? features size items = nextForm? features size others) :
    readOutcomes features size items = readOutcomes features size others := by
  cases read : nextForm? features size others with
  | none => rw [readOutcomes_none read, readOutcomes_none (same.trans read)]
  | some pair => rw [readOutcomes_some read, readOutcomes_some (same.trans read)]

/-- Reading comes to an end without another form only behind items that read as
nothing. -/
theorem derives_of_readOutcomes_nil {items : List LexItem}
    (read : readOutcomes features size items = []) :
    ∃ tokens, items = lexedItems tokens ∧ DerivesProgram features tokens [] := by
  cases next : nextForm? features size items with
  | none =>
    have accounted := nextForm?_accounted features size items
    rw [next] at accounted
    obtain ⟨tokens, rfl, derives⟩ := accounted
    exact ⟨tokens, rfl, derives⟩
  | some pair =>
    rw [readOutcomes_some next] at read
    cases read

/-- A form that is read next is derived by the tokens up to where reading goes
on. -/
theorem derives_of_readOutcomes_cons {items : List LexItem} {form : Form}
    {more : List (Except ReadFault Form)} (read : readOutcomes features size items = .ok form :: more) :
    ∃ tokens rest, items = lexedItems tokens ++ rest ∧ Derives features .one tokens [form] ∧
      readOutcomes features size rest = more := by
  cases next : nextForm? features size items with
  | none =>
    rw [readOutcomes_none next] at read
    cases read
  | some pair =>
    obtain ⟨outcome, rest⟩ := pair
    rw [readOutcomes_some next] at read
    obtain ⟨rfl, readRest⟩ := List.cons.inj read
    have accounted := nextForm?_accounted features size items
    rw [next] at accounted
    obtain ⟨tokens, rfl, one⟩ := accounted
    exact ⟨tokens, rest, rfl, one, readRest⟩

theorem derives_of_readOutcomes_append {items : List LexItem} {forms : List Form}
    {more : List (Except ReadFault Form)}
    (read : readOutcomes features size items = forms.map .ok ++ more) :
    ∃ tokens rest, items = lexedItems tokens ++ rest ∧ DerivesProgram features tokens forms ∧
      readOutcomes features size rest = more := by
  induction forms generalizing items with
  | nil => exact ⟨[], items, rfl, .nil, read⟩
  | cons form forms ih =>
    obtain ⟨first, rest, rfl, one, readRest⟩ := derives_of_readOutcomes_cons read
    obtain ⟨others, rest, rfl, derives, readMore⟩ := ih readRest
    exact ⟨first ++ others, rest, by simp, one.items_of_one.append derives, readMore⟩

theorem derives_of_readOutcomes {items : List LexItem} {forms : List Form}
    (read : readOutcomes features size items = forms.map .ok) :
    ∃ tokens, items = lexedItems tokens ∧ DerivesProgram features tokens forms := by
  rw [← List.append_nil (forms.map Except.ok)] at read
  obtain ⟨tokens, rest, rfl, derives, readMore⟩ := derives_of_readOutcomes_append read
  obtain ⟨skipped, rfl, nothing⟩ := derives_of_readOutcomes_nil readMore
  refine ⟨tokens ++ skipped, by simp, ?_⟩
  simpa using derives.append nothing

theorem Derives.length_le_one {tokens : List Token} {forms : List Form}
    (item : Derives features (.item false) tokens forms) : forms.length ≤ 1 := by
  cases item with
  | @conditional _ _ _ _ _ _ selected => cases selected <;> simp
  | _ => simp

/-- Tokens that derive forms are read as these, whatever follows. -/
theorem readOutcomes_append {tokens : List Token} {forms : List Form}
    (derives : Derives features (.items false) tokens forms) (more : List LexItem) :
    readOutcomes features size (lexedItems tokens ++ more) =
      forms.map .ok ++ readOutcomes features size more := by
  generalize phrase : Phrase.items false = kind at derives
  induction derives with
  | nil => rfl
  | @cons _ first rest forms others head _ _ ih =>
    cases phrase
    have driven : nextForm? features size (lexedItems first ++ (lexedItems rest ++ more)) =
        resume features size (lexedItems rest ++ more) (emit [] forms) :=
      drives_of_derives head [] _ ⟨rfl, fun impossible => by contradiction⟩
    rw [lexedItems_append, List.append_assoc]
    have single := head.length_le_one
    cases forms with
    | nil => exact (readOutcomes_congr driven).trans (ih rfl)
    | cons form rest =>
      obtain rfl : rest = [] := List.length_eq_zero_iff.1 (Nat.le_zero.1 (Nat.le_of_succ_le_succ single))
      rw [readOutcomes_some driven, ih rfl]
      rfl
  | _ => cases phrase

theorem readOutcomes_of_derives {tokens : List Token} {forms : List Form}
    (derives : Derives features (.items false) tokens forms) :
    readOutcomes features size (lexedItems tokens) = forms.map .ok := by
  have ended : readOutcomes features size [] = [] := readOutcomes_none (by rw [nextForm?, readFrom])
  simpa [ended] using @readOutcomes_append features size tokens forms derives []

theorem Derives.unique {tokens : List Token} {forms others : List Form}
    (derives : Derives features (.items false) tokens forms)
    (again : Derives features (.items false) tokens others) : forms = others := by
  have same : forms.map Except.ok = others.map (@Except.ok ReadFault Form) :=
    (@readOutcomes_of_derives features 0 _ _ derives).symm.trans (readOutcomes_of_derives again)
  exact (List.map_inj_right fun _ _ => Except.ok.inj).1 same

theorem readAll_eq_ok_iff {source : String} {forms : List Form} :
    readAll features source = .ok forms ↔
      readOutcomes features (Text.width source.toList) (lex source.toList) = forms.map .ok := by
  unfold readAll readEach
  rw [mapM_eq_ok_iff, List.map_id]
  exact map_mapError_eq_ok_iff

theorem tokenize_eq_ok_iff {text : List Char} {tokens : List Token} :
    tokenize text = .ok tokens ↔ lex text = lexedItems tokens := by
  unfold tokenize
  rw [mapM_eq_ok_iff]
  generalize lex text = items
  induction items generalizing tokens with
  | nil => cases tokens <;> simp
  | cons item rest ih =>
    cases tokens with
    | nil => simp
    | cons token tokens =>
      rw [List.map_cons, List.map_cons, lexedItems_cons, List.cons.injEq, List.cons.injEq, ih]
      cases item <;> simp

theorem lexedItems_injective {left right : List Token} (same : lexedItems left = lexedItems right) :
    left = right :=
  (List.map_inj_right fun _ _ => LexItem.token.inj).1 same

theorem readAll_iff_derives {source : String} {tokens : List Token}
    (lexed : tokenize source.toList = .ok tokens) (forms : List Form) :
    readAll features source = .ok forms ↔ DerivesProgram features tokens forms := by
  rw [readAll_eq_ok_iff, tokenize_eq_ok_iff.1 lexed]
  constructor
  · intro read
    obtain ⟨others, same, derives⟩ := derives_of_readOutcomes read
    exact lexedItems_injective same ▸ derives
  · exact readOutcomes_of_derives

/-- Of a source that lexes, the reader accepts exactly what the grammar derives,
and the grammar derives one list of forms at most. -/
theorem readAll_exactly_derived {features : Features} {source : String} {tokens : List Token}
    (lexed : tokenize source.toList = .ok tokens) (forms : List Form) :
    (readAll features source = .ok forms ↔ DerivesProgram features tokens forms) ∧
      (DerivesProgram features tokens forms →
        ∀ others, DerivesProgram features tokens others → others = forms) := by
  refine ⟨readAll_iff_derives lexed forms, fun derives others derivesOthers => ?_⟩
  have read := (readAll_iff_derives lexed forms).2 derives
  have readOthers := (readAll_iff_derives lexed others).2 derivesOthers
  rw [read] at readOthers
  exact (Except.ok.inj readOthers).symm

/-- A splice and a conditional in a vector under metadata, and a map with a prefix
around a discard and a quote. A splice outside any collection is no program. -/
theorem conditionals_under_metadata_derived :
    (∃ tokens forms,
      let source := "^:k [#?@(:cljs 0 :clj (a \"\\t\")) #?(:cljs b :default c)] #:n\x7b:e #_f 'g\x7d"
      tokenize source.toList = .ok tokens ∧ DerivesProgram ["clj"] tokens forms ∧
        readAll ["clj"] source = .ok forms ∧
        forms.map (fun form => (form.render, Form.renderPairs form.metadata, form.span)) =
          [("[a \"\\t\" c]", [":k true"], ⟨0, 55⟩), ("\x7b:n/e (quote g)\x7d", [], ⟨56, 70⟩)]) ∧
    ∃ tokens, tokenize "#?@(:clj [a])".toList = .ok tokens ∧
      ∀ forms, ¬ DerivesProgram ["clj"] tokens forms := by
  constructor
  · have seen : (readAll ["clj"]
        "^:k [#?@(:cljs 0 :clj (a \"\\t\")) #?(:cljs b :default c)] #:n\x7b:e #_f 'g\x7d").toOption.map
          (List.map fun form => (form.render, Form.renderPairs form.metadata, form.span)) =
        some [("[a \"\\t\" c]", [":k true"], ⟨0, 55⟩), ("\x7b:n/e (quote g)\x7d", [], ⟨56, 70⟩)] := by
      decide +kernel
    obtain ⟨forms, found, rendered⟩ := Option.map_eq_some_iff.1 seen
    have read := eq_ok_of_toOption found
    obtain ⟨tokens, items, -⟩ := derives_of_readOutcomes (readAll_eq_ok_iff.1 read)
    have lexed := tokenize_eq_ok_iff.2 items
    exact ⟨tokens, forms, lexed, (readAll_exactly_derived lexed forms).1.1 read, read, rendered⟩
  · have lexes : (tokenize "#?@(:clj [a])".toList).toOption.isSome = true := by decide +kernel
    obtain ⟨tokens, found⟩ := Option.isSome_iff_exists.1 lexes
    have lexed := eq_ok_of_toOption found
    refine ⟨tokens, lexed, fun forms derives => ?_⟩
    have refused : (readAll ["clj"] "#?@(:clj [a])").toOption.isSome = false := by decide +kernel
    rw [(readAll_exactly_derived lexed forms).1.2 derives] at refused
    cases refused

end VarDoc
