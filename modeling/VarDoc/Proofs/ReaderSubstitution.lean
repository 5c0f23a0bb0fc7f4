import VarDoc.Proofs.ReaderContext

/-! Discards and reader conditionals are substitution. Wherever they stand, a
discarded form reads as if it were not there, a conditional as the branch that it
chooses, and a splicing one as the elements of that branch, before and after any
other items and also where those cannot be read. -/

set_option autoImplicit false

namespace VarDoc

variable {features : Features} {size : Nat}

theorem Derives.anywhere {tokens : List Token} {forms : List Form}
    (item : Derives features (.item false) tokens forms) (collecting : Bool) :
    Derives features (.item collecting) tokens forms := by
  cases item with
  | atom denotes => exact .atom denotes
  | group opens inside closes => exact .group opens inside closes
  | map opens inside closes => exact .map opens inside closes
  | marked marks inner => exact .marked marks inner
  | metadata marks described denotes target => exact .metadata marks described denotes target
  | namespacedMap marks inner => exact .namespacedMap marks inner
  | discard marks inner => exact .discard marks inner
  | conditional marks opens inside closes selects => exact .conditional marks opens inside closes selects

theorem Derives.items_anywhere {tokens : List Token} {forms : List Form}
    (items : Derives features (.items false) tokens forms) (collecting : Bool) :
    Derives features (.items collecting) tokens forms := by
  generalize phrase : Phrase.items false = kind at items
  induction items with
  | nil => exact .nil
  | cons head _ _ ih =>
    cases phrase
    exact .cons (head.anywhere collecting) (ih rfl)
  | _ => cases phrase

/-- What reads as a single form is this form and then items that read as nothing. -/
theorem Derives.split_one {tokens : List Token} {form : Form}
    (items : Derives features (.items false) tokens [form]) :
    ∃ one trailing, tokens = one ++ trailing ∧ Derives features .one one [form] ∧
      Derives features (.items false) trailing [] := by
  generalize phrase : Phrase.items false = kind at items
  generalize read : [form] = forms at items
  induction items with
  | nil => cases read
  | @cons _ first rest _ _ head tail _ ih =>
    cases phrase
    rcases List.append_eq_singleton_iff.1 read.symm with ⟨rfl, rfl⟩ | ⟨rfl, rfl⟩
    · obtain ⟨one, trailing, rfl, derives, nothing⟩ := ih rfl rfl
      exact ⟨first ++ one, trailing, by rw [List.append_assoc], .later head derives, nothing⟩
    · exact ⟨first, rest, rfl, .here head, tail⟩
  | _ => cases phrase

theorem readFrom_nothing {frames : List Frame} {tokens : List Token}
    (nothing : Derives features (.items false) tokens []) (ready : awaitsList frames = false)
    (rest : List LexItem) :
    readFrom features size frames (lexedItems tokens ++ rest) = readFrom features size frames rest := by
  generalize phrase : Phrase.items false = kind at nothing
  generalize read : ([] : List Form) = forms at nothing
  induction nothing with
  | nil => rfl
  | cons head _ _ ih =>
    cases phrase
    obtain ⟨rfl, rfl⟩ := List.append_eq_nil_iff.1 read.symm
    rw [lexedItems_append, List.append_assoc,
      drives_of_derives head frames _ ⟨ready, fun impossible => by contradiction⟩]
    exact ih rfl rfl
  | _ => cases phrase

def Settled (frames : List Frame) : Prop := ∀ frame ∈ frames, awaitsList [frame] = false

theorem StackHolds.settled {frames : List Frame} {tokens : List Token}
    (held : StackHolds features frames tokens) (ready : awaitsList frames = false) :
    Settled frames := by
  induction held with
  | bottom => exact fun _ => nofun
  | @frame top below _ _ _ belowReady _ ih =>
    intro frame member
    rcases List.mem_cons.1 member with rfl | further
    · cases frame with
      | condition => contradiction
      | _ => rfl
    · exact ih belowReady frame further

theorem Settled.ready {frames : List Frame} (settled : Settled frames) : awaitsList frames = false := by
  cases frames with
  | nil => rfl
  | cons top below =>
    have topReady := settled top List.mem_cons_self
    cases top with
    | condition => contradiction
    | _ => rfl

theorem deliver_ready {frames later : List Frame} {form : Form} (settled : Settled frames)
    (delivered : deliver frames form = .ok (.reading later)) : awaitsList later = false := by
  have below {frame : Frame} {frames : List Frame} (settled : Settled (frame :: frames)) :
      Settled frames := fun other member => settled other (List.mem_cons_of_mem frame member)
  fun_induction deliver frames form with
  | case1 => cases delivered
  | case2 | case3 | case4 | case7 => cases delivered; rfl
  | case6 => cases delivered; exact (below settled).ready
  | case5 _ _ _ _ ih => exact ih (below settled) delivered
  | case8 _ _ _ _ _ _ ih => exact ih (below settled) delivered
  | case10 _ _ _ _ _ _ _ ih => exact ih (below settled) delivered
  | case9 | case11 => cases delivered
  | case12 =>
    have topReady := settled _ List.mem_cons_self
    contradiction

/-- Tokens of a single form hand it over, wherever they stand. -/
theorem outcomesFrom_single {frames : List Frame} {tokens : List Token} {form : Form}
    (derives : DerivesProgram features tokens [form]) (settled : Settled frames)
    (rest : List LexItem) :
    outcomesFrom features size frames (lexedItems tokens ++ rest) =
      outcomesAfter features size (resume features size rest (deliver frames form)) := by
  obtain ⟨one, trailing, rfl, derivesOne, nothing⟩ := derives.split_one
  have delivers : readFrom features size frames (lexedItems one ++ (lexedItems trailing ++ rest)) =
      resume features size (lexedItems trailing ++ rest) (deliver frames form) :=
    drives_of_derives derivesOne frames _ settled.ready
  have skips : readOutcomes features size (lexedItems trailing ++ rest) =
      readOutcomes features size rest := readOutcomes_append nothing rest
  rw [outcomesFrom, lexedItems_append, List.append_assoc, delivers]
  -- What reads as nothing comes after a fault, after a form or inside what is still open.
  rcases delivered : deliver frames form with fault | ⟨later⟩ | ⟨read⟩
  · exact congrArg (Except.error fault :: ·) skips
  · rw [resume, readFrom_nothing nothing (deliver_ready settled delivered), resume]
  · exact congrArg (Except.ok read :: ·) skips

def ReadsAlone (features : Features) (tokens : List Token) (form : Form) : Prop :=
  readOutcomes features 0 (lexedItems tokens) = [.ok form]

theorem ReadsAlone.derives {tokens : List Token} {form : Form}
    (alone : ReadsAlone features tokens form) : DerivesProgram features tokens [form] := by
  have read : readOutcomes features 0 (lexedItems tokens) = [form].map .ok := alone
  obtain ⟨others, same, derives⟩ := derives_of_readOutcomes read
  exact lexedItems_injective same ▸ derives

theorem readsAlone_of_derives {tokens : List Token} {form : Form}
    (derives : DerivesProgram features tokens [form]) : ReadsAlone features tokens form :=
  readOutcomes_of_derives derives

theorem readsAlone_atom {token : Token} {leaf : Atom} (denotes : token.atom? = some leaf) :
    ReadsAlone features [token] (.atom leaf token.span []) :=
  readsAlone_of_derives (Derives.single (.atom denotes))

structure Branch (features : Features) where
  key : Token
  value : List Token
  form : Form
  isKeyword : key.kind = .keyword
  readsAlone : ReadsAlone features value form

namespace Branch

def feature (branch : Branch features) : String := lexemeAfter 1 branch.key.lexeme

def selected (branch : Branch features) : Bool := features.selects branch.feature

def tokens (branch : Branch features) : List Token := branch.key :: branch.value

def entry (branch : Branch features) : Form × Form :=
  (.atom (.keyword branch.feature) branch.key.span [], branch.form)

theorem derives (branch : Branch features) :
    Derives features (.items true) branch.tokens [branch.entry.1, branch.entry.2] := by
  have denotes : branch.key.atom? = some (.keyword branch.feature) := by
    unfold Token.atom?
    rw [branch.isKeyword]
    rfl
  exact .cons (.atom denotes) (branch.readsAlone.derives.items_anywhere true)

end Branch

structure Conditional (features : Features) where
  splicing : Bool
  mark : Token
  opening : Token
  branches : List (Branch features)
  closing : Token
  marks : mark.kind = .conditional splicing
  opens : opening.kind = .opensGroup .list
  closes : closing.kind = .closes .paren

namespace Conditional

def tokens (conditional : Conditional features) : List Token :=
  conditional.mark :: conditional.opening ::
    (conditional.branches.flatMap Branch.tokens ++ [conditional.closing])

def chosen? (conditional : Conditional features) : Option (Branch features) :=
  conditional.branches.find? Branch.selected

def forms (conditional : Conditional features) : List Form :=
  entryForms (conditional.branches.map Branch.entry)

theorem derives (conditional : Conditional features) :
    Derives features (.items true) (conditional.branches.flatMap Branch.tokens) conditional.forms := by
  unfold forms
  induction conditional.branches with
  | nil => exact .nil
  | cons branch branches ih => exact branch.derives.append ih

theorem selects (conditional : Conditional features) :
    Selects features (conditional.branches.map Branch.entry) (conditional.chosen?.map Branch.form) := by
  rw [selects_iff]
  unfold selectBranch? chosen?
  rw [List.find?_map, Option.map_map]
  rfl

theorem readFrom_tokens (conditional : Conditional features) {frames : List Frame}
    (ready : awaitsList frames = false) (rest : List LexItem) :
    readFrom features size frames (lexedItems conditional.tokens ++ rest) =
      resume features size rest (closeBranches features conditional.splicing conditional.mark.span
        (conditional.opening.span.merge conditional.closing.span) conditional.forms frames) :=
  Drives.branches (drives_of_derives conditional.derives) ready conditional.marks conditional.opens
    conditional.closes rest

theorem outcomesFrom_selecting (conditional : Conditional features)
    (selecting : conditional.splicing = false) {frames : List Frame} (settled : Settled frames)
    (rest : List LexItem) :
    outcomesFrom features size frames (lexedItems conditional.tokens ++ rest) =
      outcomesFrom features size frames
        (lexedItems (conditional.chosen?.elim [] Branch.value) ++ rest) := by
  rw [outcomesFrom, conditional.readFrom_tokens settled.ready, selecting, forms,
    closeBranches_selecting conditional.selects]
  cases conditional.chosen? with
  | none => rfl
  | some branch => exact (outcomesFrom_single branch.readsAlone.derives settled rest).symm

def contents (conditional : Conditional features) : List Form :=
  (conditional.chosen?.map Branch.form).elim [] fun form =>
    if conditional.splicing then splicedForms form else [form]

theorem derives_contents (conditional : Conditional features) :
    Derives features (.item true) conditional.tokens conditional.contents := by
  cases kind : conditional.splicing with
  | true =>
    have spliced : Splices (conditional.chosen?.map Branch.form) conditional.contents := by
      simp only [splices_iff, contents, kind, if_true]
    exact .splice (kind ▸ conditional.marks) conditional.opens conditional.derives conditional.closes
      conditional.selects spliced
  | false =>
    have single : conditional.contents = (conditional.chosen?.map Branch.form).toList := by
      unfold contents
      cases conditional.chosen? <;> simp [kind]
    rw [single]
    exact .conditional (kind ▸ conditional.marks) conditional.opens conditional.derives
      conditional.closes conditional.selects

end Conditional

/-- The tokens up to the opening of a collection, and complete items inside it. -/
def InCollection (features : Features) (items : List LexItem) : Prop :=
  ∃ outer opening inside forms, items = outer ++ lexedItems (opening :: inside) ∧
    (opening.kind = .opensMap ∨ ∃ shape, opening.kind = .opensGroup shape) ∧
    Derives features (.items true) inside forms

def Frame.Collects (frame : Frame) : Prop := ∀ forms, (frame.collect? forms).isSome

theorem collects_of_collect {frame filled : Frame} {forms : List Form}
    (collected : frame.collect? forms = some filled) : filled.Collects := by
  cases frame <;> cases collected <;> exact fun _ => rfl

/-- Whatever the reader was in the middle of, an opening bracket has it collect
forms: those of a new collection, or the branches of the conditional before it. -/
theorem opening_passes {frames : List Frame} {opening : Token}
    (opens : opening.kind = .opensMap ∨ ∃ shape, opening.kind = .opensGroup shape) :
    ∃ outcomes top below, Passes features frames [.token opening] outcomes (top :: below) ∧
      top.Collects := by
  have opened (frames : List Frame) : ∃ frame : Frame, frame.Collects ∧
      shift features frames opening = .ok (.reading (frame :: frames)) := by
    unfold shift
    rcases opens with kind | ⟨shape, kind⟩
    · exact ⟨.map opening.span [], fun _ => rfl, by rw [kind]⟩
    · exact ⟨.group shape opening.span [], fun _ => rfl, by rw [kind]⟩
  cases ready : awaitsList frames with
  | false =>
    obtain ⟨frame, collects, shifted⟩ := opened frames
    exact ⟨[], frame, frames, fun size rest =>
      congrArg (outcomesAfter features size) (readFrom_opens ready shifted rest), collects⟩
  | true =>
    obtain ⟨splicing, start, below, rfl⟩ := awaitsList_eq_true ready
    by_cases list : opening.kind = .opensGroup .list
    · exact ⟨[], .branches splicing start opening.span [], below, fun size rest =>
        congrArg (outcomesAfter features size) (readFrom_condition list rest), fun _ => rfl⟩
    · -- The conditional refuses the bracket, which then opens a collection of its own.
      obtain ⟨frame, collects, shifted⟩ := opened []
      refine ⟨[.error ⟨.oddConditional, start.start⟩], frame, [], fun size rest => ?_, collects⟩
      have again : readOutcomes features size (.token opening :: rest) =
          outcomesFrom features size [frame] rest := by
        rw [← outcomesFrom_nil, outcomesFrom, readFrom_opens rfl shifted]
        rfl
      exact (outcomesFrom_refused list rest).trans (congrArg _ again)

theorem Frame.Collects.passes {top : Frame} (collects : top.Collects) {tokens : List Token}
    {forms : List Form} (derives : Derives features (.items true) tokens forms) (below : List Frame) :
    ∃ filled, top.collect? forms = some filled ∧
      Passes features (top :: below) (lexedItems tokens) [] (filled :: below) := by
  obtain ⟨filled, collected⟩ := Option.isSome_iff_exists.1 (collects forms)
  exact ⟨filled, collected, fun size rest =>
    congrArg (outcomesAfter features size) (drives_of_derives derives top filled below rest collected)⟩

theorem InCollection.passes {items : List LexItem} (inside : InCollection features items) :
    ∃ outcomes top below, Passes features [] items outcomes (top :: below) ∧ top.Collects := by
  obtain ⟨outer, opening, inner, forms, rfl, opens, derives⟩ := inside
  obtain ⟨outcomes, frames, _, outerPasses, -, -⟩ := outcomes_split features outer
  obtain ⟨more, top, below, openingPasses, collects⟩ := @opening_passes features frames opening opens
  obtain ⟨filled, collected, innerPasses⟩ := collects.passes derives below
  exact ⟨_, filled, below, outerPasses.trans (openingPasses.trans innerPasses),
    collects_of_collect collected⟩

def Form.elements? (form : Form) : Option (List Form) := form.list?.or form.vector?

theorem Form.elements?_withMetadata (form : Form) (start : Span) (entries : List (Form × Form)) :
    (form.withMetadata start entries).elements? = form.elements? := by
  cases form with
  | group shape => cases shape <;> rfl
  | atom | map | marked => rfl

theorem splicedForms_eq (form : Form) : splicedForms form = form.elements?.getD [form] := by
  cases form with
  | group shape => cases shape <;> rfl
  | atom | map | marked => rfl

/-- Inside a collection, texts that derive the same forms may stand for each other. -/
theorem InCollection.alike {before : List LexItem} (inside : InCollection features before)
    {left right : List Token} {forms : List Form}
    (derivesLeft : Derives features (.items true) left forms)
    (derivesRight : Derives features (.items true) right forms) (behind : List LexItem) :
    ReadAlike features (before ++ lexedItems left ++ behind) (before ++ lexedItems right ++ behind) := by
  obtain ⟨outcomes, top, below, passes, collects⟩ := inside.passes
  obtain ⟨filled, collected, leftPasses⟩ := collects.passes derivesLeft below
  obtain ⟨again, collectedAgain, rightPasses⟩ := collects.passes derivesRight below
  obtain rfl : again = filled := Option.some.inj (collectedAgain.symm.trans collected)
  refine .of_outcomes fun size => ?_
  rw [← outcomesFrom_nil, ← outcomesFrom_nil, passes.trans leftPasses, passes.trans rightPasses]

def Form.ElementsWithin (features : Features) (tokens : List Token) (form : Form) : Prop :=
  ∀ elements, form.elements? = some elements → ∃ text, text <:+: tokens ∧
    text.length < tokens.length ∧ Derives features (.items true) text elements

theorem Form.ElementsWithin.mono {tokens others : List Token} {form : Form}
    (within : form.ElementsWithin features tokens) (part : tokens <:+: others) :
    form.ElementsWithin features others := by
  intro elements found
  obtain ⟨text, inside, shorter, derives⟩ := within elements found
  exact ⟨text, inside.trans part, Nat.lt_of_lt_of_le shorter part.length_le, derives⟩

/-- A property of a form and the tokens around it holds of all that is derived if it
holds of each single form that an item outside a collection comes to. Only a splice
comes to more, and these are elements of a form that was read from fewer tokens. -/
theorem Derives.forall_within {Holds : List Token → Form → Prop}
    (mono : ∀ {tokens others form}, Holds tokens form → tokens <:+: others → Holds others form)
    (elements : ∀ {tokens form}, Holds tokens form → form.ElementsWithin features tokens)
    (made : ∀ {tokens form}, Derives features (.item false) tokens [form] →
      (∀ {text forms}, text.length < tokens.length → Derives features (.items true) text forms →
        ∀ other ∈ forms, Holds text other) → Holds tokens form)
    {phrase : Phrase} {tokens : List Token} {forms : List Form}
    (derives : Derives features phrase tokens forms) : ∀ form ∈ forms, Holds tokens form := by
  induction length : tokens.length using Nat.strongRecOn generalizing phrase tokens forms with
  | ind bound smaller =>
    have single {text : List Token} {form : Form} (item : Derives features (.item false) text [form])
        (bounded : text.length ≤ bound) : ∀ other ∈ [form], Holds text other :=
      List.forall_mem_singleton.2 (made item fun shorter inside =>
        smaller _ (Nat.lt_of_lt_of_le shorter bounded) inside rfl)
    have bounded := Nat.le_of_eq length
    clear length
    induction derives with
    | atom denotes => exact single (.atom denotes) bounded
    | group opens inside closes => exact single (.group opens inside closes) bounded
    | map opens inside closes => exact single (.map opens inside closes) bounded
    | marked marks inner => exact single (.marked marks inner) bounded
    | metadata marks described denotes target =>
      exact single (.metadata marks described denotes target) bounded
    | namespacedMap marks inner => exact single (.namespacedMap marks inner) bounded
    | discard | nil => exact fun _ => nofun
    | @conditional _ _ _ _ _ _ selected marks opens inside closes selects =>
      cases selected with
      | none => exact fun _ => nofun
      | some form => exact single (.conditional marks opens inside closes selects) bounded
    | @splice token opening closing body branches selected forms _ _ inside _ selects spliced ih =>
      have part : body <:+: token :: opening :: (body ++ [closing]) := ⟨[token, opening], [closing], rfl⟩
      have within := ih (Nat.le_trans part.length_le bounded)
      cases selected with
      | none =>
        cases spliced
        exact fun _ => nofun
      | some chosen =>
        rw [splices_iff, Option.elim_some, splicedForms_eq] at spliced
        subst spliced
        have holds := within chosen selects.mem
        cases found : chosen.elements? with
        | none => exact List.forall_mem_singleton.2 (mono holds part)
        | some items =>
          obtain ⟨text, textPart, shorter, derivesText⟩ := elements holds items found
          have textBounded : text.length < bound :=
            Nat.lt_of_lt_of_le shorter (Nat.le_trans part.length_le bounded)
          exact fun form member =>
            mono (smaller _ textBounded derivesText rfl form member) (textPart.trans part)
    | @cons _ first rest forms others _ _ ihHead ihTail =>
      have front : first <:+: first ++ rest := (List.prefix_append first rest).isInfix
      have back : rest <:+: first ++ rest := (List.suffix_append first rest).isInfix
      intro form member
      rcases List.mem_append.1 member with inHead | inTail
      · exact mono (ihHead (Nat.le_trans front.length_le bounded) form inHead) front
      · exact mono (ihTail (Nat.le_trans back.length_le bounded) form inTail) back
    | here _ ih => exact ih bounded
    | @later skipped tokens _ _ _ _ ih =>
      have back : tokens <:+: skipped ++ tokens := (List.suffix_append skipped tokens).isInfix
      exact fun form member => mono (ih (Nat.le_trans back.length_le bounded) form member) back

theorem Derives.elementsWithin {phrase : Phrase} {tokens : List Token} {forms : List Form}
    (derives : Derives features phrase tokens forms) :
    ∀ form ∈ forms, form.ElementsWithin features tokens := by
  refine @Derives.forall_within _ (Form.ElementsWithin features) Form.ElementsWithin.mono id
    (fun {tokens form} item smaller => ?_) _ _ _ derives
  generalize read : [form] = forms at item
  cases item with
  | atom | map | marked | namespacedMap =>
    cases read
    exact fun _ => nofun
  | discard => cases read
  | @group _ shape opening closing body _ _ inside _ =>
    cases read
    intro elements found
    refine ⟨body, ⟨[opening], [closing], rfl⟩, by rw [List.length_cons, List.length_append]; omega, ?_⟩
    cases shape <;> cases found <;> exact inside
  | @metadata _ token first second _ target entries _ _ _ one =>
    cases read
    have part : second <:+: token :: (first ++ second) := ⟨token :: first, [], by simp⟩
    have shorter : second.length < (token :: (first ++ second)).length := by
      rw [List.length_cons, List.length_append]
      omega
    intro elements found
    rw [Form.elements?_withMetadata] at found
    exact (smaller shorter (one.items_of_one.items_anywhere true) target List.mem_cons_self).mono part
      elements found
  | @conditional _ token opening closing body _ selected _ _ inside _ selects =>
    have part : body <:+: token :: opening :: (body ++ [closing]) := ⟨[token, opening], [closing], rfl⟩
    have shorter : body.length < (token :: opening :: (body ++ [closing])).length := by
      rw [List.length_cons, List.length_cons, List.length_append]
      omega
    have member : form ∈ selected.toList := read ▸ List.mem_cons_self
    rw [Option.mem_toList.1 member] at selects
    exact (smaller shorter inside form selects.mem).mono part

/-- The part of the branch that its elements are read from, where it reads as a
list or a vector. -/
def Branch.ElementText (branch : Branch features) (text : List Token) : Prop :=
  ∃ elements, branch.form.elements? = some elements ∧ text <:+: branch.value ∧
    Derives features (.items true) text elements

theorem Branch.exists_elementText {branch : Branch features}
    (sequence : branch.form.elements?.isSome = true) : ∃ text, branch.ElementText text := by
  obtain ⟨elements, found⟩ := Option.isSome_iff_exists.1 sequence
  obtain ⟨text, inside, -, derives⟩ :=
    branch.readsAlone.derives.elementsWithin branch.form (by simp) elements found
  exact ⟨text, elements, found, inside, derives⟩

theorem ReadAlike.replace_unmarked {before left right behind : List LexItem}
    (unmarked : ¬ EndsInCondition before)
    (same : ∀ size frames, Settled frames → outcomesFrom features size frames (left ++ behind) =
      outcomesFrom features size frames (right ++ behind)) :
    ReadAlike features (before ++ left ++ behind) (before ++ right ++ behind) := by
  refine .replace fun size frames tokens held awaits => same size frames ?_
  exact held.settled (Bool.eq_false_iff.2 fun awaiting => unmarked (awaits awaiting))

theorem ReadAlike.discard {before : List LexItem} (unmarked : ¬ EndsInCondition before)
    (behind : List LexItem) {mark : Token} {tokens : List Token} {form : Form}
    (marks : mark.kind = .discard) (alone : ReadsAlone features tokens form) :
    ReadAlike features (before ++ lexedItems (mark :: tokens) ++ behind) (before ++ behind) := by
  obtain ⟨one, trailing, rfl, derives, nothing⟩ := alone.derives.split_one
  have discarded : Derives features (.items false) (mark :: (one ++ trailing)) [] :=
    .cons (.discard marks derives) nothing
  have alike : ReadAlike features (before ++ lexedItems (mark :: (one ++ trailing)) ++ behind)
      (before ++ [] ++ behind) :=
    .replace_unmarked unmarked fun size _ settled =>
      congrArg (outcomesAfter features size) (readFrom_nothing discarded settled.ready behind)
  rwa [List.append_nil] at alike

/-- Discards, conditionals and splices read like what stands for them, in every
context that they can stand in. -/
theorem discards_and_conditionals_substitute (features : Features) (before behind : List LexItem) :
    (¬ EndsInCondition before →
      (∀ mark tokens form, mark.kind = .discard → ReadsAlone features tokens form →
        ReadAlike features (before ++ lexedItems (mark :: tokens) ++ behind) (before ++ behind)) ∧
      ∀ conditional : Conditional features, conditional.splicing = false →
        ReadAlike features (before ++ lexedItems conditional.tokens ++ behind)
          (before ++ lexedItems (conditional.chosen?.elim [] Branch.value) ++ behind)) ∧
    (InCollection features before →
      ∀ conditional : Conditional features, conditional.splicing = true →
        (conditional.chosen? = none →
          ReadAlike features (before ++ lexedItems conditional.tokens ++ behind) (before ++ behind)) ∧
        ∀ branch, conditional.chosen? = some branch → branch.form.elements?.isSome = true →
          (∃ text, branch.ElementText text) ∧ ∀ text, branch.ElementText text →
            ReadAlike features (before ++ lexedItems conditional.tokens ++ behind)
              (before ++ lexedItems text ++ behind)) := by
  refine ⟨fun unmarked => ⟨?_, ?_⟩, fun inside conditional splicing => ⟨?_, ?_⟩⟩
  · intro mark tokens form marks alone
    exact .discard unmarked behind marks alone
  · intro conditional selecting
    exact .replace_unmarked unmarked fun size frames settled =>
      conditional.outcomesFrom_selecting selecting settled behind
  · intro nothing
    have empty : conditional.contents = [] := by
      unfold Conditional.contents
      rw [nothing]
      rfl
    have alike := inside.alike (Derives.single conditional.derives_contents)
      (empty ▸ Derives.nil) behind
    rwa [lexedItems_nil, List.append_nil] at alike
  · intro branch chosen sequence
    refine ⟨branch.exists_elementText sequence, ?_⟩
    rintro text ⟨elements, found, -, derives⟩
    have spliced : conditional.contents = elements := by
      unfold Conditional.contents
      rw [chosen, splicing, Option.map_some, Option.elim_some, if_pos rfl, splicedForms_eq, found]
      rfl
    exact inside.alike (Derives.single conditional.derives_contents) (spliced ▸ derives) behind

/-- A discard after a quote, a conditional in a map that is never closed, and a
splice of a vector. -/
theorem substitutes_after_quote_and_inside_collections :
    let alike (source other : String) : Prop :=
      (readEach ["clj"] source).map (exceptBoth (ReadError.unplaced id) Form.unplaced) =
        (readEach ["clj"] other).map (exceptBoth (ReadError.unplaced id) Form.unplaced)
    alike "^:k '#_b c)" "^:k 'c)" ∧ alike "\x7b:x #?(:cljs 1 :clj 2)" "\x7b:x 2" ∧
      alike "[a #?@(:cljs 0 :clj [1 2]) b]" "[a 1 2 b]" := by
  let token (kind : TokenKind) (lexeme : String) : Token := ⟨kind, .nowhere, lexeme⟩
  let opening := token (.opensGroup .list) "("
  let closing := token (.closes .paren) ")"
  let number (feature text : String) : Branch ["clj"] :=
    ⟨token .keyword feature, [token .number text], _, rfl, readsAlone_atom rfl⟩
  refine ⟨?_, ?_, ?_⟩
  · let before := lexedItems [token .metadata "^", token .keyword ":k", token (.sigil .quote) "'"]
    have unmarked : ¬ EndsInCondition before := fun ends =>
      nomatch (@endsInCondition_concat before.dropLast _).1 ends
    have law := discards_and_conditionals_substitute ["clj"] before
      (lexedItems [token .symbol "c", closing])
    have alone : ReadsAlone ["clj"] [token .symbol "b"] (.atom (.symbol "b") .nowhere []) :=
      readsAlone_atom (by decide)
    have alike := (law.1 unmarked).1 (token .discard "#_") [token .symbol "b"] _ rfl alone
    exact (alike.texts _ _ (by decide +kernel) (by decide +kernel)).1
  · let conditional : Conditional ["clj"] := ⟨false, token (.conditional false) "#?", opening,
      [number ":cljs" "1", number ":clj" "2"], closing, rfl, rfl, rfl⟩
    let before := lexedItems [token .opensMap "\x7b", token .keyword ":x"]
    have unmarked : ¬ EndsInCondition before := fun ends =>
      nomatch (@endsInCondition_concat before.dropLast _).1 ends
    have law := discards_and_conditionals_substitute ["clj"] before []
    have alike := (law.1 unmarked).2 conditional rfl
    exact (alike.texts _ _ (by decide +kernel) (by decide +kernel)).1
  · let elements := [token .number "1", token .number "2"]
    let square := token (.opensGroup .vector) "["
    let vector : Branch ["clj"] :=
      ⟨token .keyword ":clj", square :: (elements ++ [token (.closes .square) "]"]), _, rfl,
        readsAlone_of_derives (Derives.single (.group rfl
          ((Derives.single (.atom rfl)).append (Derives.single (.atom rfl))) rfl))⟩
    let conditional : Conditional ["clj"] := ⟨true, token (.conditional true) "#?@", opening,
      [number ":cljs" "0", vector], closing, rfl, rfl, rfl⟩
    have inside : InCollection ["clj"] (lexedItems [square, token .symbol "a"]) :=
      ⟨[], square, [token .symbol "a"], [.atom (.symbol "a") .nowhere []], rfl, .inr ⟨.vector, rfl⟩,
        Derives.single (.atom (by decide))⟩
    have chosen : conditional.chosen? = some vector := by
      refine (List.find?_cons_of_neg (by decide +kernel)).trans ?_
      exact List.find?_cons_of_pos (by decide +kernel)
    have text : vector.ElementText elements :=
      ⟨_, rfl, ⟨[square], [token (.closes .square) "]"], rfl⟩,
        (Derives.single (.atom rfl)).append (Derives.single (.atom rfl))⟩
    have law := discards_and_conditionals_substitute ["clj"] (lexedItems [square, token .symbol "a"])
      (lexedItems [token .symbol "b", token (.closes .square) "]"])
    have alike := ((law.2 inside conditional rfl).2 vector chosen rfl).2 elements text
    exact (alike.texts _ _ (by decide +kernel) (by decide +kernel)).1

end VarDoc
