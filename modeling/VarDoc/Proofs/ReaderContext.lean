import VarDoc.Proofs.UnplacedReading

/-! Reading in the middle of a source. What stands before an item counts only by
the constructs it leaves open, also where it holds errors: after each of them
reading starts again outside all constructs. So two stretches of items that do the
same to every stack of open constructs may stand for each other in every source. -/

set_option autoImplicit false

namespace VarDoc

variable {features : Features} {size : Nat}

def outcomesAfter (features : Features) (size : Nat) :
    Option (Except ReadFault Form × List LexItem) → List (Except ReadFault Form)
  | none => []
  | some (outcome, rest) => outcome :: readOutcomes features size rest

def outcomesFrom (features : Features) (size : Nat) (frames : List Frame) (items : List LexItem) :
    List (Except ReadFault Form) :=
  outcomesAfter features size (readFrom features size frames items)

theorem outcomesFrom_nil (items : List LexItem) :
    outcomesFrom features size [] items = readOutcomes features size items := by
  change outcomesAfter features size (nextForm? features size items) = _
  cases next : nextForm? features size items with
  | none => rw [readOutcomes_none next, outcomesAfter]
  | some pair => rw [readOutcomes_some next, outcomesAfter]

/-- A conditional refuses what is not a list and leaves it to be read after its
fault. -/
theorem outcomesFrom_refused {splicing : Bool} {start : Span} {below : List Frame} {token : Token}
    (other : token.kind ≠ .opensGroup .list) (rest : List LexItem) :
    outcomesFrom features size (.condition splicing start :: below) (.token token :: rest) =
      .error ⟨.oddConditional, start.start⟩ :: readOutcomes features size (.token token :: rest) := by
  rw [outcomesFrom, readFrom, if_neg other, outcomesAfter]

/-- From inside the frames, reading the items yields the outcomes and leaves the
later frames open, whatever follows. -/
def Passes (features : Features) (frames : List Frame) (items : List LexItem)
    (outcomes : List (Except ReadFault Form)) (later : List Frame) : Prop :=
  ∀ size rest, outcomesFrom features size frames (items ++ rest) =
    outcomes ++ outcomesFrom features size later rest

theorem Passes.trans {frames between later : List Frame} {items others : List LexItem}
    {outcomes more : List (Except ReadFault Form)} (first : Passes features frames items outcomes between)
    (second : Passes features between others more later) :
    Passes features frames (items ++ others) (outcomes ++ more) later := by
  intro size rest
  rw [List.append_assoc, first, second, List.append_assoc]

def Leaves (features : Features) (frames : List Frame) (items recent : List LexItem) : Prop :=
  ∃ outcomes later tokens, Passes features frames items outcomes later ∧
    StackHolds features later tokens ∧ lexedItems tokens <:+ recent

theorem shift_leaves {frames : List Frame} {tokens : List Token}
    (held : StackHolds features frames tokens) (ready : awaitsList frames = false) (token : Token) :
    Leaves features frames [.token token] (lexedItems (tokens ++ [token])) := by
  have step (size : Nat) (rest : List LexItem) :
      outcomesFrom features size frames ([.token token] ++ rest) =
        outcomesAfter features size (resume features size rest (shift features frames token)) :=
    congrArg (outcomesAfter features size) (readFrom_token ready token rest)
  have emptied {outcome : Except ReadFault Form}
      (done : ∀ size rest, resume features size rest (shift features frames token) = some (outcome, rest)) :
      Leaves features frames [.token token] (lexedItems (tokens ++ [token])) := by
    refine ⟨[outcome], [], [], fun size rest => ?_, .bottom .nil, List.nil_suffix⟩
    rw [step, done, outcomesFrom_nil]
    rfl
  rcases shifted : shift features frames token with fault | ⟨later⟩ | ⟨form⟩
  · exact emptied fun size rest => by rw [shifted, resume]
  · refine ⟨[], later, tokens ++ [token], fun size rest => ?_, ?_, List.suffix_rfl⟩
    · rw [step, shifted]
      rfl
    · exact shift_holds held ready shifted
  · exact emptied fun size rest => by rw [shifted, resume]

theorem item_leaves {frames : List Frame} {tokens : List Token}
    (held : StackHolds features frames tokens) (item : LexItem) :
    Leaves features frames [item] (lexedItems tokens ++ [item]) := by
  cases item with
  | fault error span =>
    refine ⟨[.error ⟨.lexical error, span.start⟩], [], [], fun size rest => ?_, .bottom .nil,
      List.nil_suffix⟩
    rw [outcomesFrom_nil, outcomesFrom, List.singleton_append, readFrom_fault]
    rfl
  | token token =>
    cases ready : awaitsList frames with
    | false => simpa using shift_leaves held ready token
    | true =>
      obtain ⟨splicing, start, below, rfl⟩ := awaitsList_eq_true ready
      by_cases opens : token.kind = .opensGroup .list
      · cases held with
        | @frame _ _ before tokens rest belowReady inner =>
          cases inner with
          | @condition mark _ marks =>
            refine ⟨[], .branches splicing mark.span token.span [] :: below, before ++ [mark, token],
              fun size rest => ?_, .frame rest belowReady (.branches marks opens .nil), by simp⟩
            rw [outcomesFrom, List.singleton_append, readFrom_condition opens]
            rfl
      · obtain ⟨outcomes, later, read, passes, laterHeld, recent⟩ :=
          shift_leaves (.bottom .nil : StackHolds features [] []) rfl token
        refine ⟨.error ⟨.oddConditional, start.start⟩ :: outcomes, later, read, fun size rest => ?_,
          laterHeld, recent.trans (List.suffix_append _ _)⟩
        have after := passes size rest
        rw [outcomesFrom_nil] at after
        rw [List.cons_append, List.cons_append, ← after]
        exact outcomesFrom_refused opens rest

theorem items_leave {frames : List Frame} {tokens : List Token}
    (held : StackHolds features frames tokens) (items : List LexItem) :
    Leaves features frames items (lexedItems tokens ++ items) := by
  -- What the frames account for shrinks when a form or a fault empties the stack, and
  -- always ends in the last item.
  induction items generalizing frames tokens with
  | nil => exact ⟨[], frames, tokens, fun _ _ => rfl, held, by simp⟩
  | cons item items ih =>
    obtain ⟨outcomes, between, read, first, betweenHeld, recent⟩ := item_leaves held item
    obtain ⟨more, later, readAfter, second, laterHeld, recentAfter⟩ := ih betweenHeld
    refine ⟨outcomes ++ more, later, readAfter, first.trans second, laterHeld, recentAfter.trans ?_⟩
    obtain ⟨front, whole⟩ := recent
    exact ⟨front, by rw [← List.append_assoc, whole]; simp⟩

/-- The last item is the mark of a conditional, so that a list must come next. -/
def EndsInCondition (items : List LexItem) : Prop :=
  ∃ front mark splicing, items = front ++ [.token mark] ∧ mark.kind = .conditional splicing

theorem endsInCondition_concat {items : List LexItem} {last : Token} :
    EndsInCondition (items ++ [.token last]) ↔ ∃ splicing, last.kind = .conditional splicing := by
  constructor
  · rintro ⟨front, mark, splicing, same, marks⟩
    have isMark : last = mark := LexItem.token.inj (List.cons.inj (List.append_inj_right' same rfl)).1
    exact ⟨splicing, isMark ▸ marks⟩
  · rintro ⟨splicing, marks⟩
    exact ⟨items, last, splicing, rfl, marks⟩

theorem StackHolds.endsInCondition {frames : List Frame} {tokens : List Token}
    (held : StackHolds features frames tokens) (awaits : awaitsList frames = true)
    {items : List LexItem} (recent : lexedItems tokens <:+ items) : EndsInCondition items := by
  obtain ⟨splicing, start, below, rfl⟩ := awaitsList_eq_true awaits
  cases held with
  | @frame _ _ before _ _ _ inner =>
    cases inner with
    | @condition mark _ marks =>
      obtain ⟨front, rfl⟩ := recent
      rw [lexedItems_append, ← List.append_assoc]
      exact endsInCondition_concat.2 ⟨splicing, marks⟩

/-- After any items the reader is inside some constructs, and waits for the list
of a conditional only where its mark comes last. -/
theorem outcomes_split (features : Features) (items : List LexItem) :
    ∃ outcomes frames tokens, Passes features [] items outcomes frames ∧
      StackHolds features frames tokens ∧ (awaitsList frames = true → EndsInCondition items) := by
  obtain ⟨outcomes, frames, tokens, passes, held, recent⟩ :=
    items_leave (.bottom .nil : StackHolds features [] []) items
  exact ⟨outcomes, frames, tokens, passes, held, fun awaits => held.endsInCondition awaits recent⟩

/-- The items are read alike, and so are the texts that are lexed as them: form by
form and as a whole, wherever their tokens stand. -/
structure ReadAlike (features : Features) (left right : List LexItem) : Prop where
  outcomes : ∀ size, readOutcomes features size left = readOutcomes features size right
  texts : ∀ source other : String,
    (lex source.toList).map (LexItem.unplaced id) = left.map (LexItem.unplaced id) →
    (lex other.toList).map (LexItem.unplaced id) = right.map (LexItem.unplaced id) →
    (readEach features source).map (exceptBoth (ReadError.unplaced id) Form.unplaced) =
        (readEach features other).map (exceptBoth (ReadError.unplaced id) Form.unplaced) ∧
      exceptBoth (ReadError.unplaced id) (List.map Form.unplaced) (readAll features source) =
        exceptBoth (ReadError.unplaced id) (List.map Form.unplaced) (readAll features other)

theorem ReadAlike.of_outcomes {left right : List LexItem}
    (same : ∀ size, readOutcomes features size left = readOutcomes features size right) :
    ReadAlike features left right := by
  refine ⟨same, fun source other lexed lexedOther => ?_⟩
  have each : (readEach features source).map (exceptBoth (ReadError.unplaced id) Form.unplaced) =
      (readEach features other).map (exceptBoth (ReadError.unplaced id) Form.unplaced) := by
    rw [readEach_located, readEach_located, lexed, lexedOther, readOutcomes_unplaced id features 0,
      readOutcomes_unplaced id features 0, same 0]
  exact ⟨each, readAll_of_readEach each⟩

/-- What does the same inside all constructs that the items before it can leave
open may stand for each other. -/
theorem ReadAlike.replace {before left right behind : List LexItem}
    (same : ∀ size frames tokens, StackHolds features frames tokens →
      (awaitsList frames = true → EndsInCondition before) →
      outcomesFrom features size frames (left ++ behind) =
        outcomesFrom features size frames (right ++ behind)) :
    ReadAlike features (before ++ left ++ behind) (before ++ right ++ behind) := by
  obtain ⟨outcomes, frames, tokens, passes, held, awaits⟩ := outcomes_split features before
  refine .of_outcomes fun size => ?_
  rw [← outcomesFrom_nil, ← outcomesFrom_nil, List.append_assoc, List.append_assoc, passes, passes,
    same size frames tokens held awaits]

end VarDoc
