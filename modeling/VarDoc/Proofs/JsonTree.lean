import VarDoc.Json.Raw

/-! JSON trees and their tokens. The reader turns the tokens of a tree back into
the tree. -/

set_option autoImplicit false

namespace VarDoc

theorem intercalate_cons {α : Type} (separator first : List α) (rest : List (List α)) :
    List.intercalate separator (first :: rest) = first ++ rest.flatMap (separator ++ ·) := by
  induction rest generalizing first with
  | nil => simp [List.intercalate]
  | cons second rest ih =>
    have later := ih second
    simp only [List.intercalate, List.intersperse, List.flatten_cons] at later ⊢
    rw [later, List.flatMap_cons, List.append_assoc]

namespace Json.Raw

mutual

def tokens : Raw → List Token
  | .null => [.null]
  | .bool value => [.bool value]
  | .number text => [.number text]
  | .string body => [.string body]
  | .array items => .openArray :: (List.intercalate [.comma] (itemTokens items) ++ [.closeArray])
  | .object fields => .openObject :: (List.intercalate [.comma] (fieldTokens fields) ++ [.closeObject])

def itemTokens : List Raw → List (List Token)
  | [] => []
  | item :: rest => item.tokens :: itemTokens rest

def fieldTokens : List (List Char × Raw) → List (List Token)
  | [] => []
  | (key, value) :: rest => (.string key :: .colon :: value.tokens) :: fieldTokens rest

end

theorem itemTokens_eq (items : List Raw) : itemTokens items = items.map tokens := by
  induction items with
  | nil => rfl
  | cons item rest ih => rw [itemTokens, ih, List.map_cons]

theorem fieldTokens_eq (fields : List (List Char × Raw)) :
    fieldTokens fields = fields.map fun field => .string field.1 :: .colon :: field.2.tokens := by
  induction fields with
  | nil => rfl
  | cons field rest ih => rw [fieldTokens, ih, List.map_cons]

theorem itemsDepth_le_iff {items : List Raw} {limit : Nat} :
    itemsDepth items ≤ limit ↔ ∀ item ∈ items, item.depth ≤ limit := by
  induction items with
  | nil => simp [itemsDepth]
  | cons item rest ih => rw [itemsDepth, Nat.max_le, ih, List.forall_mem_cons]

theorem fieldsDepth_le_iff {fields : List (List Char × Raw)} {limit : Nat} :
    fieldsDepth fields ≤ limit ↔ ∀ field ∈ fields, field.2.depth ≤ limit := by
  induction fields with
  | nil => simp [fieldsDepth]
  | cons field rest ih => rw [fieldsDepth, Nat.max_le, ih, List.forall_mem_cons]

theorem shallow?_eq_some_iff {outer : Nat} {raw same : Raw} :
    raw.shallow? outer = some same ↔ outer + raw.depth ≤ depthLimit ∧ raw = same := by
  unfold shallow?
  split
  next short => simp [short]
  next deep => simp [deep]

theorem eq_of_shallow? {outer : Nat} {raw same : Raw} (shallow : raw.shallow? outer = some same) :
    raw = same := (shallow?_eq_some_iff.1 shallow).2

def run (tokens : List Token) (state : State) : Option State := tokens.foldlM step state

theorem run_cons (token : Token) (rest : List Token) (state : State) :
    run (token :: rest) state = (step state token).bind (run rest) := rfl

section Bracketed

variable {α : Type} {written : α → List Token} (frame : List α → Frame)
  {opened : Next} {closing : Token} {whole : List α → Raw} {frames : List Frame}

/-- An array or object with something in it takes the rest of its members,
each after a comma, and closes. -/
theorem run_members {members : List α}
    (closes : ∀ held, step (.inside (frame held :: frames) .commaOrClose) closing =
      place (whole held.reverse) frames)
    (each : ∀ member ∈ members, ∀ held rest,
      run (.comma :: written member ++ rest) (.inside (frame held :: frames) .commaOrClose) =
        run rest (.inside (frame (member :: held) :: frames) .commaOrClose))
    (held : List α) (rest : List Token) :
    run (members.flatMap (.comma :: written ·) ++ closing :: rest)
        (.inside (frame held :: frames) .commaOrClose) =
      (place (whole (held.reverse ++ members)) frames).bind (run rest) := by
  induction members generalizing held with
  | nil => rw [List.flatMap_nil, List.nil_append, run_cons, closes, List.append_nil]
  | cons member members ih =>
    have later := ih (fun other found => each other (List.mem_cons_of_mem _ found)) (member :: held)
    rw [List.flatMap_cons, List.append_assoc, each member List.mem_cons_self, later,
      List.reverse_cons, List.append_assoc, List.singleton_append]

theorem run_bracketed {members : List α}
    (closes : ∀ held, step (.inside (frame held :: frames) .commaOrClose) closing =
      place (whole held.reverse) frames)
    (each : ∀ member ∈ members, ∀ held rest,
      run (.comma :: written member ++ rest) (.inside (frame held :: frames) .commaOrClose) =
        run rest (.inside (frame (member :: held) :: frames) .commaOrClose))
    (closesEmpty : step (.inside (frame [] :: frames) opened) closing = place (whole []) frames)
    (starts : ∀ member ∈ members, ∀ rest,
      run (written member ++ rest) (.inside (frame [] :: frames) opened) =
        run (.comma :: written member ++ rest) (.inside (frame [] :: frames) .commaOrClose))
    (rest : List Token) :
    run (List.intercalate [.comma] (members.map written) ++ closing :: rest)
        (.inside (frame [] :: frames) opened) = (place (whole members) frames).bind (run rest) := by
  cases members with
  | nil =>
    change run (closing :: rest) _ = _
    rw [run_cons, closesEmpty]
  | cons member members =>
    -- The first member has no comma before it but is read as if it had.
    have all := run_members frame closes each [] rest
    rw [List.flatMap_cons, List.append_assoc] at all
    rw [List.map_cons, intercalate_cons, List.append_assoc, starts member List.mem_cons_self,
      List.flatMap_map]
    exact all

end Bracketed

theorem tokens_head (raw : Raw) : ∃ first more, raw.tokens = first :: more ∧ first ≠ .closeArray := by
  cases raw <;> exact ⟨_, _, by rw [tokens], Token.noConfusion⟩

theorem run_valueOrClose (raw : Raw) (frames : List Frame) (rest : List Token) :
    run (raw.tokens ++ rest) (.inside frames .valueOrClose) =
      run (raw.tokens ++ rest) (.inside frames .value) := by
  obtain ⟨first, more, starts, different⟩ := tokens_head raw
  rw [starts, List.cons_append, run_cons, run_cons]
  congr 1
  cases first <;> first | rfl | contradiction

/-- Where a value must begin, the tokens of the tree lead to where the tree is
in its place. -/
def ReadsBack (raw : Raw) : Prop :=
  ∀ (frames : List Frame) (rest : List Token),
    run (raw.tokens ++ rest) (.inside frames .value) = (place raw frames).bind (run rest)

theorem readsBack_array {items : List Raw} (each : ∀ item ∈ items, item.ReadsBack) :
    (Raw.array items).ReadsBack := by
  intro frames rest
  rw [tokens, List.cons_append, run_cons, step, stepValue, Option.bind_some, List.append_assoc,
    itemTokens_eq]
  refine run_bracketed .array (fun _ => rfl) ?_ rfl ?_ rest
  · intro item member held later
    rw [List.cons_append, run_cons]
    exact each item member (.array held :: frames) later
  · intro item _ later
    rw [run_valueOrClose, List.cons_append, run_cons]
    rfl

theorem readsBack_object {fields : List (List Char × Raw)}
    (each : ∀ field ∈ fields, field.2.ReadsBack) : (Raw.object fields).ReadsBack := by
  intro frames rest
  rw [tokens, List.cons_append, run_cons, step, stepValue, Option.bind_some, List.append_assoc,
    fieldTokens_eq]
  refine run_bracketed .object (fun _ => rfl) ?_ rfl ?_ rest
  · intro field member held later
    exact each field member (.member held field.1 :: frames) later
  · exact fun _ _ _ => rfl

theorem readsBack_leaf {raw : Raw} {token : Token} (one : raw.tokens = [token])
    (placed : ∀ frames, stepValue frames token = place raw frames) : raw.ReadsBack := by
  intro frames rest
  rw [one]
  change (stepValue frames token).bind (run rest) = _
  rw [placed]

mutual

theorem readsBack : ∀ raw : Raw, raw.ReadsBack
  | .null => readsBack_leaf rfl fun _ => rfl
  | .bool _ => readsBack_leaf rfl fun _ => rfl
  | .number _ => readsBack_leaf rfl fun _ => rfl
  | .string _ => readsBack_leaf rfl fun _ => rfl
  | .array items => readsBack_array (items_readBack items)
  | .object fields => readsBack_object (fields_readBack fields)

theorem items_readBack : ∀ items : List Raw, ∀ item ∈ items, item.ReadsBack
  | first :: rest => List.forall_mem_cons.2 ⟨readsBack first, items_readBack rest⟩
  | [] => fun _ member => absurd member List.not_mem_nil

theorem fields_readBack :
    ∀ fields : List (List Char × Raw), ∀ field ∈ fields, field.2.ReadsBack
  | (_, value) :: rest => List.forall_mem_cons.2 ⟨readsBack value, fields_readBack rest⟩
  | [] => fun _ member => absurd member List.not_mem_nil

end

/-- The tokens of a tree are read as that tree. -/
theorem ofTokens?_tokens (raw : Raw) : ofTokens? raw.tokens = some raw := by
  have read := readsBack raw [] []
  rw [List.append_nil, run] at read
  rw [ofTokens?, read]
  rfl

inductive Moves : State → State → Prop where
  | leaf {frames : List Frame} {next : Next} {value : Raw} {state : State}
      (placed : place value frames = some state) : Moves (.inside frames next) state
  | entered {frames : List Frame} {next opened : Next} {frame : Frame} :
      Moves (.inside frames next) (.inside (frame :: frames) opened)
  | keyed {fields : List (List Char × Raw)} {below : List Frame} {next : Next} {key : List Char} :
      Moves (.inside (.object fields :: below) next) (.inside (.member fields key :: below) .colon)
  | passed {frames : List Frame} {next awaited : Next} :
      Moves (.inside frames next) (.inside frames awaited)
  | closed {frame : Frame} {below : List Frame} {next : Next} {whole : Raw} {state : State}
      (nested : 0 < whole.depth) (placed : place whole below = some state) :
      Moves (.inside (frame :: below) next) state

theorem moves_stepValue {frames : List Frame} {next : Next} {token : Token} {state : State}
    (stepped : stepValue frames token = some state) : Moves (.inside frames next) state := by
  cases token with
  | null | bool | number | string => exact .leaf stepped
  | openArray | openObject =>
    obtain rfl := Option.some.inj stepped
    exact .entered
  | closeArray | closeObject | comma | colon => contradiction

theorem moves_stepKey {frames : List Frame} {next : Next} {token : Token} {state : State}
    (stepped : stepKey frames token = some state) : Moves (.inside frames next) state := by
  unfold stepKey at stepped
  split at stepped
  · obtain rfl := Option.some.inj stepped
    exact .keyed
  · contradiction

theorem moves_closeArray {frames : List Frame} {next : Next} {state : State}
    (closed : closeArray frames = some state) : Moves (.inside frames next) state := by
  unfold closeArray at closed
  split at closed
  next items below =>
    refine .closed ?_ closed
    rw [depth]
    exact Nat.succ_pos _
  next => contradiction

theorem moves_closeObject {frames : List Frame} {next : Next} {state : State}
    (closed : closeObject frames = some state) : Moves (.inside frames next) state := by
  unfold closeObject at closed
  split at closed
  next fields below =>
    refine .closed ?_ closed
    rw [depth]
    exact Nat.succ_pos _
  next => contradiction

theorem moves_of_step {state next : State} {token : Token} (stepped : step state token = some next) :
    Moves state next := by
  unfold step at stepped
  split at stepped
  · contradiction
  · exact moves_stepValue stepped
  · split at stepped
    · exact moves_closeArray stepped
    · exact moves_stepValue stepped
  · exact moves_stepKey stepped
  · split at stepped
    · exact moves_closeObject stepped
    · exact moves_stepKey stepped
  · split at stepped
    · obtain rfl := Option.some.inj stepped
      exact .passed
    · contradiction
  · split at stepped
    · obtain rfl := Option.some.inj stepped
      exact .passed
    · obtain rfl := Option.some.inj stepped
      exact .passed
    · exact moves_closeArray stepped
    · exact moves_closeObject stepped
    · contradiction

theorem run_invariant {holds : State → Prop}
    (kept : ∀ {state next : State}, Moves state next → holds state → holds next)
    {tokens : List Token} {state last : State} (start : holds state)
    (ran : run tokens state = some last) : holds last := by
  induction tokens generalizing state with
  | nil =>
    obtain rfl := Option.some.inj ran
    exact start
  | cons token rest ih =>
    rw [run_cons] at ran
    obtain ⟨next, stepped, ran⟩ := Option.bind_eq_some_iff.1 ran
    exact ih (kept (moves_of_step stepped) start) ran

theorem run_of_ofTokens? {tokens : List Token} {raw : Raw} (read : ofTokens? tokens = some raw) :
    run tokens (.inside [] .value) = some (.done raw) := by
  unfold ofTokens? at read
  split at read
  next found =>
    obtain rfl := Option.some.inj read
    exact found
  next => contradiction

def Nested : State → Prop
  | .inside frames _ => frames ≠ []
  | .done value => 0 < value.depth

theorem nested_place {value : Raw} {frames : List Frame} {state : State}
    (inner : frames ≠ [] ∨ 0 < value.depth) (placed : place value frames = some state) :
    Nested state := by
  unfold place at placed
  split at placed
  · obtain rfl := Option.some.inj placed
    exact inner.resolve_left (not_not_intro rfl)
  · obtain rfl := Option.some.inj placed
    exact List.cons_ne_nil _ _
  · obtain rfl := Option.some.inj placed
    exact List.cons_ne_nil _ _
  · contradiction

/-- There is no way out of an array or object but to be it. -/
theorem nested_of_moves {state next : State} (moves : Moves state next) (nested : Nested state) :
    Nested next := by
  cases moves with
  | leaf placed => exact nested_place (.inl nested) placed
  | entered => exact List.cons_ne_nil _ _
  | keyed => exact List.cons_ne_nil _ _
  | passed => exact nested
  | closed deep placed => exact nested_place (.inr deep) placed

theorem run_done {tokens : List Token} {value : Raw} {last : State}
    (ran : run tokens (.done value) = some last) : tokens = [] ∧ last = .done value := by
  cases tokens with
  | nil => exact ⟨rfl, (Option.some.inj ran).symm⟩
  | cons token rest => contradiction

theorem tokens_of_flat {tokens : List Token} {raw : Raw} (read : ofTokens? tokens = some raw)
    (flat : raw.depth = 0) : tokens = raw.tokens := by
  have ran := run_of_ofTokens? read
  cases tokens with
  | nil => exact absurd (Option.some.inj ran) State.noConfusion
  | cons first rest =>
    rw [run_cons] at ran
    obtain ⟨state, stepped, ranRest⟩ := Option.bind_eq_some_iff.1 ran
    cases first with
    | null | bool value | number text | string body =>
      obtain rfl := Option.some.inj stepped
      obtain ⟨rfl, same⟩ := run_done ranRest
      rw [State.done.inj same]
      rfl
    | openArray | openObject =>
      obtain rfl := Option.some.inj stepped
      have nested : Nested (.done raw) := by
        refine run_invariant nested_of_moves ?_ ranRest
        exact List.cons_ne_nil _ _
      exact absurd flat (Nat.ne_of_gt nested)
    | closeArray | closeObject | comma | colon => contradiction

end Json.Raw

end VarDoc
