import VarDoc.Proofs.ReaderGrammar

/-! How far reading gets, and that it stops. A call of the reader is a run of
steps. Each of them takes one item of the source, save that the last may take
none: at the end of the source, or where a conditional refuses what follows its
mark. What a call leaves unread is an end of what it found, so calls return
something no more often than the source has items, and nothing ever after. -/

set_option autoImplicit false

namespace VarDoc

variable {features : Features} {size : Nat}

/-- What a step comes to: the call goes on inside some constructs, or it returns
and leaves the rest unread. -/
inductive Progress where
  | on (frames : List Frame) (items : List LexItem)
  | returned (outcome : Option (Except ReadFault Form)) (rest : List LexItem)

def Progress.ofShift (rest : List LexItem) : Except ReadFault ReadState → Progress
  | .error fault => .returned (some (.error fault)) rest
  | .ok (.done form) => .returned (some (.ok form)) rest
  | .ok (.reading frames) => .on frames rest

def advance (features : Features) (size : Nat) : List Frame → List LexItem → Progress
  | [], [] => .returned none []
  | .condition _ start :: _, [] => .returned (some (.error ⟨.oddConditional, start.start⟩)) []
  | frame :: _, [] => .returned (some (.error ⟨.unexpectedEnd frame.wanted, size⟩)) []
  | _, .fault error span :: rest => .returned (some (.error ⟨.lexical error, span.start⟩)) rest
  | .condition splicing start :: below, .token lexed :: rest =>
    if lexed.kind = .opensGroup .list then
      .on (.branches splicing start lexed.span [] :: below) rest
    else .returned (some (.error ⟨.oddConditional, start.start⟩)) (.token lexed :: rest)
  | frames, .token lexed :: rest => .ofShift rest (shift features frames lexed)

def Progress.finish (features : Features) (size : Nat) :
    Progress → Option (Except ReadFault Form × List LexItem)
  | .on frames items => readFrom features size frames items
  | .returned outcome rest => outcome.map fun outcome => (outcome, rest)

theorem finish_ofShift (rest : List LexItem) (state : Except ReadFault ReadState) :
    (Progress.ofShift rest state).finish features size = resume features size rest state := by
  rcases state with fault | ⟨frames⟩ | ⟨form⟩ <;> rfl

theorem advance_fault (frames : List Frame) (error : LexError) (span : Span) (rest : List LexItem) :
    advance features size frames (.fault error span :: rest) =
      .returned (some (.error ⟨.lexical error, span.start⟩)) rest := by
  cases frames with
  | nil => rfl
  | cons frame below => cases frame <;> rfl

theorem advance_token {frames : List Frame} (ready : awaitsList frames = false) (token : Token)
    (rest : List LexItem) :
    advance features size frames (.token token :: rest) =
      .ofShift rest (shift features frames token) := by
  cases frames with
  | nil => rfl
  | cons frame below =>
    cases frame with
    | condition => contradiction
    | _ => rfl

theorem finish_advance (frames : List Frame) (items : List LexItem) :
    (advance features size frames items).finish features size = readFrom features size frames items := by
  cases items with
  | nil =>
    cases frames with
    | nil => rfl
    | cons frame below => cases frame <;> rfl
  | cons item rest =>
    cases item with
    | fault error span =>
      rw [advance_fault, readFrom]
      rfl
    | token lexed =>
      cases ready : awaitsList frames with
      | false => rw [advance_token ready, finish_ofShift, readFrom_token ready]
      | true =>
        obtain ⟨splicing, start, below, rfl⟩ := awaitsList_eq_true ready
        rw [readFrom, advance]
        split <;> rfl

/-- What a step takes: one token to go on, and to return the last item, or nothing
where a construct is left open. Only outside all of them the source may end. -/
inductive Takes (frames : List Frame) : List LexItem → Progress → Prop where
  | token {token : Token} {rest : List LexItem} {later : List Frame} :
    Takes frames (.token token :: rest) (.on later rest)
  | last {item : LexItem} {rest : List LexItem} {outcome : Except ReadFault Form} :
    Takes frames (item :: rest) (.returned (some outcome) rest)
  | kept {items : List LexItem} {outcome : Except ReadFault Form} (inside : frames ≠ []) :
    Takes frames items (.returned (some outcome) items)
  | ended (outside : frames = []) : Takes frames [] (.returned none [])

theorem advance_takes (frames : List Frame) (items : List LexItem) :
    Takes frames items (advance features size frames items) := by
  cases items with
  | nil =>
    cases frames with
    | nil => exact .ended rfl
    | cons frame below => cases frame <;> exact .kept (List.cons_ne_nil _ _)
  | cons item rest =>
    cases item with
    | fault error span =>
      rw [advance_fault]
      exact .last
    | token lexed =>
      cases ready : awaitsList frames with
      | false =>
        rw [advance_token ready]
        rcases shift features frames lexed with fault | ⟨later⟩ | ⟨form⟩
        · exact .last
        · exact .token
        · exact .last
      | true =>
        obtain ⟨splicing, start, below, rfl⟩ := awaitsList_eq_true ready
        rw [advance]
        split
        · exact .token
        · exact .kept (List.cons_ne_nil _ _)

inductive Returns (features : Features) (size : Nat) : Nat → List Frame → List LexItem →
    Option (Except ReadFault Form) → List LexItem → Prop where
  | now {frames : List Frame} {items rest : List LexItem} {outcome : Option (Except ReadFault Form)}
    (returned : advance features size frames items = .returned outcome rest) :
    Returns features size 1 frames items outcome rest
  | later {steps : Nat} {frames next : List Frame} {items others rest : List LexItem}
    {outcome : Option (Except ReadFault Form)}
    (goesOn : advance features size frames items = .on next others)
    (further : Returns features size steps next others outcome rest) :
    Returns features size (steps + 1) frames items outcome rest

theorem exists_returns (frames : List Frame) (items : List LexItem) :
    ∃ steps outcome rest, Returns features size steps frames items outcome rest := by
  induction items generalizing frames with
  | nil =>
    have takes := @advance_takes features size frames []
    cases step : advance features size frames [] with
    | returned outcome rest => exact ⟨1, outcome, rest, .now step⟩
    | on =>
      rw [step] at takes
      cases takes
  | cons item rest ih =>
    have takes := @advance_takes features size frames (item :: rest)
    cases step : advance features size frames (item :: rest) with
    | returned outcome left => exact ⟨1, outcome, left, .now step⟩
    | on next others =>
      rw [step] at takes
      cases takes
      obtain ⟨steps, outcome, left, further⟩ := ih next
      exact ⟨steps + 1, outcome, left, .later step further⟩

section Runs

variable {steps : Nat} {frames : List Frame} {items rest : List LexItem}
  {outcome : Option (Except ReadFault Form)}

theorem Returns.readFrom_eq (returns : Returns features size steps frames items outcome rest) :
    readFrom features size frames items = outcome.map fun outcome => (outcome, rest) := by
  induction returns with
  | now returned => rw [← finish_advance, returned, Progress.finish]
  | later goesOn _ ih => rw [← finish_advance, goesOn, Progress.finish, ih]

/-- A call leaves an end of what it found, and takes at least an item for each
step but its last. -/
theorem Returns.leaves (returns : Returns features size steps frames items outcome rest) :
    rest <:+ items ∧ steps + rest.length ≤ items.length + 1 := by
  induction returns with
  | @now frames items rest outcome returned =>
    have takes := @advance_takes features size frames items
    rw [returned] at takes
    cases takes with
    | last => exact ⟨List.suffix_cons _ _, by rw [List.length_cons]; omega⟩
    | kept => exact ⟨List.suffix_rfl, by omega⟩
    | ended => exact ⟨List.suffix_rfl, Nat.le_refl _⟩
  | @later steps frames next items others rest outcome goesOn _ ih =>
    have takes := @advance_takes features size frames items
    rw [goesOn] at takes
    cases takes
    exact ⟨ih.1.trans (List.suffix_cons _ _), by rw [List.length_cons]; omega⟩

theorem Returns.shorter {outcome : Except ReadFault Form}
    (returns : Returns features size steps [] items (some outcome) rest) :
    rest.length < items.length := by
  cases returns with
  | now returned =>
    have takes := @advance_takes features size [] items
    rw [returned] at takes
    cases takes with
    | last => exact Nat.lt_succ_self _
    | kept inside => contradiction
  | later goesOn further =>
    have takes := @advance_takes features size [] items
    rw [goesOn] at takes
    cases takes
    exact Nat.lt_succ_of_le further.leaves.1.length_le

theorem Returns.exhausted (returns : Returns features size steps frames items none rest) : rest = [] := by
  generalize nothing : (none : Option (Except ReadFault Form)) = outcome at returns
  induction returns with
  | @now frames items rest outcome returned =>
    subst nothing
    have takes := @advance_takes features size frames items
    rw [returned] at takes
    cases takes
    rfl
  | later _ _ ih => exact ih nothing

theorem nextForm?_suffix {outcome : Except ReadFault Form}
    (read : nextForm? features size items = some (outcome, rest)) : rest <:+ items := by
  obtain ⟨steps, returned, left, returns⟩ := @exists_returns features size [] items
  obtain ⟨other, -, same⟩ := Option.map_eq_some_iff.1 (returns.readFrom_eq.symm.trans read)
  cases same
  exact returns.leaves.1

end Runs

def call (features : Features) (size : Nat) (items : List LexItem) :
    Option (Except ReadFault Form) × List LexItem :=
  (nextForm? features size items).elim (none, []) fun read => (some read.1, read.2)

def unreadAfter (features : Features) (size : Nat) (items : List LexItem) : Nat → List LexItem
  | 0 => items
  | calls + 1 => (call features size (unreadAfter features size items calls)).2

theorem call_returns (items : List LexItem) : ∃ steps,
    Returns features size steps [] items (call features size items).1 (call features size items).2 := by
  obtain ⟨steps, outcome, rest, returns⟩ := @exists_returns features size [] items
  have read : nextForm? features size items = _ := returns.readFrom_eq
  cases outcome with
  | none =>
    rw [call, read]
    exact ⟨steps, returns.exhausted ▸ returns⟩
  | some outcome =>
    rw [call, read]
    exact ⟨steps, returns⟩

theorem readOutcomes_of_call {items : List LexItem} {outcome : Except ReadFault Form}
    (returned : (call features size items).1 = some outcome) :
    readOutcomes features size items =
      outcome :: readOutcomes features size (call features size items).2 := by
  unfold call at returned ⊢
  cases read : nextForm? features size items with
  | none =>
    rw [read] at returned
    cases returned
  | some pair =>
    rw [read] at returned
    obtain rfl := Option.some.inj returned
    exact readOutcomes_some read

theorem readOutcomes_of_silent {items : List LexItem} (silent : (call features size items).1 = none) :
    readOutcomes features size items = [] ∧ readOutcomes features size (call features size items).2 = [] := by
  unfold call at silent ⊢
  cases read : nextForm? features size items with
  | none =>
    have ended : nextForm? features size [] = none := rfl
    exact ⟨readOutcomes_none read, readOutcomes_none ended⟩
  | some pair =>
    rw [read] at silent
    cases silent

theorem readOutcomes_call (items : List LexItem) :
    readOutcomes features size (call features size items).2 = (readOutcomes features size items).tail := by
  cases returned : (call features size items).1 with
  | none =>
    obtain ⟨before, after⟩ := readOutcomes_of_silent returned
    rw [before, after, List.tail_nil]
  | some outcome => rw [readOutcomes_of_call returned, List.tail_cons]

theorem call_eq_head? (items : List LexItem) :
    (call features size items).1 = (readOutcomes features size items).head? := by
  cases returned : (call features size items).1 with
  | none => rw [(readOutcomes_of_silent returned).1, List.head?_nil]
  | some outcome => rw [readOutcomes_of_call returned, List.head?_cons]

theorem readOutcomes_unreadAfter (items : List LexItem) (calls : Nat) :
    readOutcomes features size (unreadAfter features size items calls) =
      (readOutcomes features size items).drop calls := by
  induction calls with
  | zero => rfl
  | succ calls ih => rw [unreadAfter, readOutcomes_call, ih, List.tail_drop]

theorem call_unreadAfter (items : List LexItem) (calls : Nat) :
    (call features size (unreadAfter features size items calls)).1 =
      (readOutcomes features size items)[calls]? := by
  rw [call_eq_head?, readOutcomes_unreadAfter, List.head?_drop]

/-- Each outcome takes at least one item. -/
theorem length_readOutcomes_le (items : List LexItem) :
    (readOutcomes features size items).length ≤ items.length := by
  cases read : nextForm? features size items with
  | none =>
    rw [readOutcomes_none read]
    exact Nat.zero_le _
  | some pair =>
    have shorter := nextForm?_rest read
    have later := length_readOutcomes_le pair.2
    rw [readOutcomes_some read, List.length_cons]
    omega
termination_by items.length

/-- Reading with recovery comes to an end. However many calls are made on a source,
faults or not, together they return something at most as often as the source has
items: the forms and faults as they are read, and nothing after the last of them.
Each call comes to its end itself, leaves an end of what it found, and makes no more
steps than it takes items, and one. -/
theorem calls_come_to_an_end (features : Features) (source : String) :
    let size := Text.width source.toList
    let items := lex source.toList
    let unread := unreadAfter features size items
    let answer := fun calls => (call features size (unread calls)).1
    (∃ count ≤ items.length, (∀ calls < count, (answer calls).isSome) ∧
      ∀ calls ≥ count, answer calls = none) ∧
    (∀ calls, (readEach features source)[calls]? =
      (answer calls).map (Except.mapError (ReadFault.locate source.toList))) ∧
    ∀ calls, unread (calls + 1) <:+ unread calls ∧
      ((answer calls).isSome → (unread (calls + 1)).length < (unread calls).length) ∧
      ∃ steps, Returns features size steps [] (unread calls) (answer calls) (unread (calls + 1)) ∧
        steps + (unread (calls + 1)).length ≤ (unread calls).length + 1 := by
  intro size items unread answer
  have answers (calls : Nat) : answer calls = (readOutcomes features size items)[calls]? :=
    call_unreadAfter items calls
  refine ⟨⟨(readOutcomes features size items).length, length_readOutcomes_le items,
    fun calls early => ?_, fun calls late => ?_⟩, fun calls => ?_, fun calls => ?_⟩
  · rw [answers, List.getElem?_eq_getElem early, Option.isSome_some]
  · rw [answers, List.getElem?_eq_none late]
  · rw [answers, readEach, List.getElem?_map]
  · obtain ⟨steps, returns⟩ := @call_returns features size (unread calls)
    refine ⟨returns.leaves.1, fun something => ?_, steps, returns, returns.leaves.2⟩
    obtain ⟨outcome, returned⟩ := Option.isSome_iff_exists.1 something
    rw [show (call features size (unread calls)).1 = some outcome from returned] at returns
    exact returns.shorter

end VarDoc
