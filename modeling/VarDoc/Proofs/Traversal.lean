/-! Going through a list with a step that may fail. The whole succeeds just when
every step does. -/

set_option autoImplicit false

namespace VarDoc

variable {ε α β : Type}

theorem mapError_eq_ok_iff {ε' : Type} {result : Except ε α} {change : ε → ε'} {made : α} :
    result.mapError change = .ok made ↔ result = .ok made := by
  cases result with
  | error fault => exact ⟨nofun, nofun⟩
  | ok found =>
    change Except.ok found = Except.ok made ↔ _
    rw [Except.ok.injEq, Except.ok.injEq]

theorem map_mapError_eq_ok_iff {ε' : Type} {results : List (Except ε α)} {change : ε → ε'}
    {made : List α} : results.map (·.mapError change) = made.map .ok ↔ results = made.map .ok := by
  induction results generalizing made with
  | nil => cases made <;> simp
  | cons result results ih =>
    cases made with
    | nil => simp
    | cons first made =>
      simp only [List.map_cons, List.cons.injEq, ih, mapError_eq_ok_iff]

theorem exceptMap_eq_ok_iff {result : Except ε α} {change : α → β} {changed : β} :
    result.map change = .ok changed ↔ ∃ made, result = .ok made ∧ change made = changed := by
  cases result <;> simp [Except.map]

theorem exists_exceptMap_ok_iff {result : Except ε α} {change : α → β} :
    (∃ changed, result.map change = .ok changed) ↔ ∃ made, result = .ok made := by
  cases result with
  | error => exact iff_of_false nofun nofun
  | ok made => exact iff_of_true ⟨_, rfl⟩ ⟨made, rfl⟩

theorem exceptMap_eq_error_iff {result : Except ε α} {change : α → β} {fault : ε} :
    result.map change = .error fault ↔ result = .error fault := by
  cases result <;> simp [Except.map]

theorem eq_ok_of_toOption {result : Except ε α} {made : α} (seen : result.toOption = some made) :
    result = .ok made := by
  cases result with
  | error => contradiction
  | ok => exact congrArg Except.ok (Option.some.inj seen)

def exceptBoth {ε' : Type} (onError : ε → ε') (onOk : α → β) : Except ε α → Except ε' β
  | .error error => .error (onError error)
  | .ok made => .ok (onOk made)

theorem exceptBoth_cases {ε' : Type} {onError : ε → ε'} {onOk : α → β} {first second : Except ε α}
    (same : exceptBoth onError onOk first = exceptBoth onError onOk second) :
    (∃ error error', first = .error error ∧ second = .error error' ∧
      onError error = onError error') ∨
    ∃ made made', first = .ok made ∧ second = .ok made' ∧ onOk made = onOk made' := by
  cases first with
  | error error =>
    cases second with
    | error error' => exact .inl ⟨error, error', rfl, rfl, Except.error.inj same⟩
    | ok => contradiction
  | ok made =>
    cases second with
    | error => contradiction
    | ok made' => exact .inr ⟨made, made', rfl, rfl, Except.ok.inj same⟩

theorem mapM_eq_ok_iff {step : α → Except ε β} {items : List α} {made : List β} :
    items.mapM step = .ok made ↔ items.map step = made.map .ok := by
  induction items generalizing made with
  | nil => cases made <;> simp [pure, Except.pure]
  | cons item rest ih =>
    rw [List.mapM_cons, List.map_cons]
    cases stepped : step item with
    | error fault => cases made <;> simp [bind, Except.bind]
    | ok first =>
      cases made with
      | nil =>
        cases others : rest.mapM step <;> simp [bind, Except.bind, pure, Except.pure]
      | cons wanted made =>
        rw [List.map_cons, List.cons.injEq, Except.ok.injEq, ← ih]
        cases others : rest.mapM step <;> simp [bind, Except.bind, pure, Except.pure]

theorem exceptBoth_mapM {ε' γ : Type} (onError : ε → ε') (onOk : β → γ) (step : α → Except ε β)
    (items : List α) :
    exceptBoth onError (List.map onOk) (items.mapM step) =
      items.mapM fun item => exceptBoth onError onOk (step item) := by
  induction items with
  | nil => rfl
  | cons item rest ih =>
    rw [List.mapM_cons, List.mapM_cons, ← ih]
    cases step item with
    | error => rfl
    | ok first => cases rest.mapM step <;> rfl

theorem exists_mapM_ok {step : α → Except ε β} {items : List α}
    (each : ∀ item ∈ items, ∃ made, step item = .ok made) :
    ∃ made, items.mapM step = .ok made := by
  induction items with
  | nil => exact ⟨[], rfl⟩
  | cons item rest ih =>
    obtain ⟨first, stepped⟩ := each item List.mem_cons_self
    obtain ⟨others, steppedRest⟩ := ih fun other member => each other (List.mem_cons_of_mem _ member)
    exact ⟨first :: others, by rw [List.mapM_cons, stepped, steppedRest]; rfl⟩

theorem exists_mapM_ok_iff {step : α → Except ε β} {items : List α} :
    (∃ made, items.mapM step = .ok made) ↔ ∀ item ∈ items, ∃ made, step item = .ok made := by
  refine ⟨?_, exists_mapM_ok⟩
  rintro ⟨made, built⟩ item member
  have found : step item ∈ made.map .ok := by
    rw [← mapM_eq_ok_iff.1 built]
    exact List.mem_map_of_mem member
  obtain ⟨result, -, same⟩ := List.mem_map.1 found
  exact ⟨result, same.symm⟩

/-- A traversal that fails does so at the first item whose step fails. -/
theorem exists_of_mapM_error {step : α → Except ε β} {items : List α} {fault : ε}
    (failed : items.mapM step = .error fault) :
    ∃ before item after, items = before ++ item :: after ∧ step item = .error fault ∧
      ∀ earlier ∈ before, ∃ made, step earlier = .ok made := by
  induction items with
  | nil => cases failed
  | cons item rest ih =>
    rw [List.mapM_cons] at failed
    cases stepped : step item with
    | error =>
      rw [stepped] at failed
      cases failed
      exact ⟨[], item, rest, rfl, stepped, nofun⟩
    | ok first =>
      have failedRest : rest.mapM step = .error fault := by
        rw [stepped] at failed
        cases others : rest.mapM step with
        | error =>
          rw [others] at failed
          cases failed
          rfl
        | ok =>
          rw [others] at failed
          cases failed
      obtain ⟨before, culprit, after, rfl, fails, succeed⟩ := ih failedRest
      refine ⟨item :: before, culprit, after, rfl, fails, ?_⟩
      exact List.forall_mem_cons.2 ⟨⟨first, stepped⟩, succeed⟩

theorem exists_of_mem_mapM_ok {step : α → Except ε β} {items : List α} {made : List β}
    (built : items.mapM step = .ok made) {result : β} (member : result ∈ made) :
    ∃ item ∈ items, step item = .ok result := by
  have found : Except.ok result ∈ items.map step := by
    rw [mapM_eq_ok_iff.1 built]
    exact List.mem_map_of_mem member
  exact List.mem_map.1 found

theorem exists_of_mem_mapM_some {take : α → Option β} {items : List α} {made : List β}
    (taken : items.mapM take = some made) {result : β} (member : result ∈ made) :
    ∃ item ∈ items, take item = some result := by
  induction items generalizing made with
  | nil =>
    obtain rfl := Option.some.inj taken
    contradiction
  | cons item rest ih =>
    rw [List.mapM_cons] at taken
    obtain ⟨first, found, taken⟩ := Option.bind_eq_some_iff.1 taken
    obtain ⟨others, foundRest, taken⟩ := Option.bind_eq_some_iff.1 taken
    obtain rfl := Option.some.inj taken
    rcases List.mem_cons.1 member with rfl | later
    · exact ⟨item, List.mem_cons_self, found⟩
    · obtain ⟨source, inRest, same⟩ := ih foundRest later
      exact ⟨source, List.mem_cons_of_mem _ inRest, same⟩

theorem mapM_copies {γ : Type} {copy : α → β} {take : β → Option γ} {change : α → γ} {items : List α}
    (each : ∀ item ∈ items, take (copy item) = some (change item)) :
    (items.map copy).mapM take = some (items.map change) := by
  induction items with
  | nil => rfl
  | cons item rest ih =>
    rw [List.map_cons, List.mapM_cons, each item List.mem_cons_self,
      ih fun other member => each other (List.mem_cons_of_mem _ member)]
    rfl

theorem mapM_mapM {γ δ : Type} {make : α → Except ε β} {copy : β → γ} {take : γ → Option δ}
    {change : α → δ} {items : List α} {made : List β} (built : items.mapM make = .ok made)
    (each : ∀ item ∈ items, ∀ result ∈ made, make item = .ok result →
      take (copy result) = some (change item)) :
    (made.map copy).mapM take = some (items.map change) := by
  have pairwise := mapM_eq_ok_iff.1 built
  clear built
  induction items generalizing made with
  | nil =>
    obtain rfl := List.map_eq_nil_iff.1 pairwise.symm
    rfl
  | cons item items ih =>
    cases made with
    | nil => contradiction
    | cons result made =>
      obtain ⟨first, others⟩ := List.cons.inj pairwise
      have later := ih (fun other member result found =>
        each other (List.mem_cons_of_mem _ member) result (List.mem_cons_of_mem _ found)) others
      rw [List.map_cons, List.mapM_cons, later,
        each item List.mem_cons_self result List.mem_cons_self first]
      rfl

end VarDoc
