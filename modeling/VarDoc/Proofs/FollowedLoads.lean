import VarDoc.Proofs.Inlining

/-! Following the `load` forms of a file. What a form loads, where a resource is
found and which file belongs to another namespace is said from the shape of the
forms, and following by recursion on the files, without an agenda. A run that
succeeds has followed its tasks in the only way there is, and interned what the
forms on the way define, in their order. -/

set_option autoImplicit false

namespace VarDoc

namespace Form

inductive Calls (heads : List String) (arguments : List Form) : Form → Prop where
  | intro {head : String} {headSpan span : Span} {headMetadata metadata : List (Form × Form)}
      (listed : head ∈ heads) :
      Calls heads arguments
        (.group .list (.atom (.symbol head) headSpan headMetadata :: arguments) span metadata)

theorem symbol?_eq_some_iff {form : Form} {name : String} :
    form.symbol? = some name ↔ ∃ span metadata, form = .atom (.symbol name) span metadata := by
  constructor
  · intro isSymbol
    unfold symbol? at isSymbol
    split at isSymbol
    next =>
      cases isSymbol
      exact ⟨_, _, rfl⟩
    · contradiction
  · rintro ⟨span, metadata, rfl⟩
    rfl

theorem string?_eq_some_iff {form : Form} {text : String} :
    form.string? = some text ↔ ∃ span metadata, form = .atom (.string text) span metadata := by
  constructor
  · intro isString
    unfold string? at isString
    split at isString
    next =>
      cases isString
      exact ⟨_, _, rfl⟩
    · contradiction
  · rintro ⟨span, metadata, rfl⟩
    rfl

theorem list?_eq_some_iff {form : Form} {items : List Form} :
    form.list? = some items ↔ ∃ span metadata, form = .group .list items span metadata := by
  constructor
  · intro isList
    unfold list? at isList
    split at isList
    next =>
      cases isList
      exact ⟨_, _, rfl⟩
    · contradiction
  · rintro ⟨span, metadata, rfl⟩
    rfl

theorem calls_iff {heads : List String} {arguments : List Form} {form : Form} :
    form.Calls heads arguments ↔
      heads.any form.isCallTo = true ∧ form.list?.map List.tail = some arguments := by
  constructor
  · rintro ⟨listed⟩
    exact ⟨List.any_eq_true.2 ⟨_, listed, beq_self_eq_true _⟩, rfl⟩
  · rintro ⟨called, tail⟩
    obtain ⟨head, listed, calls⟩ := List.any_eq_true.1 called
    obtain ⟨items, isList, rfl⟩ := Option.map_eq_some_iff.1 tail
    rw [isCallTo, head?, isList, Option.bind_some, beq_iff_eq] at calls
    obtain ⟨first, isFirst, isSymbol⟩ := Option.bind_eq_some_iff.1 calls
    obtain ⟨rest, rfl⟩ := List.head?_eq_some_iff.1 isFirst
    obtain ⟨_, _, rfl⟩ := symbol?_eq_some_iff.1 isSymbol
    obtain ⟨_, _, rfl⟩ := list?_eq_some_iff.1 isList
    exact .intro listed

theorem exists_calls_iff {heads : List String} {form : Form} :
    (∃ arguments, form.Calls heads arguments) ↔ heads.any form.isCallTo = true := by
  simp only [calls_iff, exists_and_left, and_iff_left_iff_imp, List.any_eq_true]
  rintro ⟨head, -, calls⟩
  rw [isCallTo, beq_iff_eq] at calls
  obtain ⟨items, isList, -⟩ := Option.bind_eq_some_iff.1 calls
  exact ⟨items.tail, by rw [isList]; rfl⟩

inductive Strings : List Form → List String → Prop where
  | nothing : Strings [] []
  | string {text : String} {span : Span} {metadata : List (Form × Form)} {rest : List Form}
      {texts : List String} (behind : Strings rest texts) :
      Strings (.atom (.string text) span metadata :: rest) (text :: texts)
  | other {form : Form} {rest : List Form} {texts : List String}
      (differs : ∀ text span metadata, form ≠ .atom (.string text) span metadata)
      (behind : Strings rest texts) : Strings (form :: rest) texts

theorem strings_iff {forms : List Form} {texts : List String} :
    Strings forms texts ↔ forms.filterMap string? = texts := by
  constructor
  · intro strings
    induction strings with
    | nothing => rfl
    | string _ ih => exact congrArg (_ :: ·) ih
    | other differs _ ih =>
      rw [List.filterMap_cons_none, ih]
      rw [Option.eq_none_iff_forall_ne_some]
      intro text isString
      obtain ⟨span, metadata, same⟩ := string?_eq_some_iff.1 isString
      exact differs text span metadata same
  · rintro rfl
    induction forms with
    | nil => exact .nothing
    | cons form rest ih =>
      cases isString : form.string? with
      | some text =>
        rw [List.filterMap_cons_some isString]
        obtain ⟨span, metadata, rfl⟩ := string?_eq_some_iff.1 isString
        exact .string ih
      | none =>
        rw [List.filterMap_cons_none isString]
        refine .other ?_ ih
        rintro text span metadata rfl
        contradiction

def Loads (form : Form) (names : List String) : Prop :=
  ∃ arguments, form.Calls ["load", "clojure.core/load"] arguments ∧ Strings arguments names

theorem loads_iff {form : Form} {names : List String} :
    form.Loads names ↔ loadResources? form = some names := by
  have heads : ["load", "clojure.core/load"].any form.isCallTo =
      (form.isCallTo "load" || form.isCallTo "clojure.core/load") := by simp
  simp only [Loads, calls_iff, strings_iff, heads, and_assoc, exists_and_left, loadResources?]
  split
  next calls =>
    rw [and_iff_right calls]
    simp [Option.map_eq_some_iff]
  next differs => simp [differs]

theorem forall_not_loads_iff {form : Form} :
    (∀ names, ¬ form.Loads names) ↔ loadResources? form = none := by
  simp only [loads_iff, Option.eq_none_iff_forall_ne_some, ne_eq]

inductive Targets (name : String) : Form → Prop where
  | symbol {span : Span} {metadata : List (Form × Form)} :
      Targets name (.atom (.symbol name) span metadata)
  | quoted {innerSpan span : Span} {innerMetadata metadata : List (Form × Form)} :
      Targets name (.marked (.sigil .quote) (.atom (.symbol name) innerSpan innerMetadata) span metadata)

end Form

inductive FirstCall (heads : List String) (arguments : List Form) : List Form → Prop where
  | here {form : Form} {rest : List Form} (calls : form.Calls heads arguments) :
      FirstCall heads arguments (form :: rest)
  | later {form : Form} {rest : List Form} (differs : ∀ given, ¬ form.Calls heads given)
      (first : FirstCall heads arguments rest) : FirstCall heads arguments (form :: rest)

theorem firstCall_iff {heads : List String} {arguments forms : List Form} :
    FirstCall heads arguments forms ↔
      (forms.find? fun form => heads.any form.isCallTo).bind
        (fun form => form.list?.map List.tail) = some arguments := by
  induction forms with
  | nil => exact iff_of_false nofun nofun
  | cons form rest ih =>
    rw [List.find?_cons]
    cases called : heads.any form.isCallTo with
    | true =>
      rw [Option.bind_some]
      constructor
      · rintro (calls | differs)
        · exact (Form.calls_iff.1 calls).2
        · obtain ⟨given, calls⟩ := Form.exists_calls_iff.2 called
          exact absurd calls (differs given)
      · intro tail
        exact .here (Form.calls_iff.2 ⟨called, tail⟩)
    | false =>
      rw [← ih]
      have differs (given : List Form) : ¬ form.Calls heads given := fun calls => by
        rw [Form.exists_calls_iff.1 ⟨given, calls⟩] at called
        contradiction
      constructor
      · rintro (calls | ⟨_, first⟩)
        · exact absurd calls (differs arguments)
        · exact first
      · exact .later differs

theorem FirstCall.exists_mem {heads : List String} {arguments forms : List Form}
    (first : FirstCall heads arguments forms) : ∃ form ∈ forms, form.Calls heads arguments := by
  induction first with
  | here calls => exact ⟨_, List.mem_cons_self, calls⟩
  | later _ _ ih =>
    obtain ⟨form, member, calls⟩ := ih
    exact ⟨form, List.mem_cons_of_mem _ member, calls⟩

/-- The first form that switches the namespace switches to this one. -/
def Switches (forms : List Form) (name : String) : Prop :=
  ∃ target rest, FirstCall ["ns", "in-ns"] (target :: rest) forms ∧ target.Targets name

theorem getElem?_one_of_tail {items rest : List Form} {second : Form}
    (tail : items.tail = second :: rest) : items[1]? = some second := by
  rw [← List.getElem?_tail, tail]
  rfl

theorem switches_iff {forms : List Form} {name : String} :
    Switches forms name ↔ switchedNamespace? forms = some name := by
  have heads (form : Form) : (form.isCallTo "ns" || form.isCallTo "in-ns") =
      ["ns", "in-ns"].any form.isCallTo := by simp
  simp only [Switches, firstCall_iff, switchedNamespace?, heads]
  cases forms.find? fun form => ["ns", "in-ns"].any form.isCallTo with
  | none => simp
  | some form =>
    simp only [Option.bind_some]
    constructor
    · rintro ⟨target, rest, called, targets⟩
      obtain ⟨items, isList, tail⟩ := Option.map_eq_some_iff.1 called
      rw [isList, Option.bind_some, getElem?_one_of_tail tail]
      cases targets <;> rfl
    · intro switched
      obtain ⟨items, isList, second⟩ := Option.bind_eq_some_iff.1 switched
      obtain ⟨target, isTarget, named⟩ := Option.bind_eq_some_iff.1 second
      rw [← List.getElem?_tail] at isTarget
      obtain ⟨rest, tail⟩ := List.head?_eq_some_iff.1 (List.head?_eq_getElem?.trans isTarget)
      refine ⟨target, rest, by rw [isList, Option.map_some, tail], ?_⟩
      split at named
      next =>
        obtain ⟨_, _, rfl⟩ := Form.symbol?_eq_some_iff.1 named
        exact .quoted
      next =>
        obtain ⟨_, _, rfl⟩ := Form.symbol?_eq_some_iff.1 named
        exact .symbol

/-- A path with the same components is among those met. -/
def Path.MetIn (path : Path) (met : List Path) : Prop :=
  ∃ earlier ∈ met, earlier.components = path.components

theorem Visited.has_iff {visited : Visited} {path : Path} :
    visited.has path = true ↔ path.MetIn visited.paths := by
  simp only [has, List.any_eq_true, Path.same_iff, Path.MetIn]

theorem Visited.has_eq_false_iff {visited : Visited} {path : Path} :
    visited.has path = false ↔ ¬ path.MetIn visited.paths := by
  rw [← Visited.has_iff, Bool.not_eq_true]

namespace Loading

def candidate (loading : Loading) (origin : Path) (resource ending : String) : Path :=
  (loading.lookupBase origin resource).join ⟨(resourcePath resource).text ++ ending⟩

inductive Finds (loading : Loading) (origin : Path) (resource : String) : Path → Prop where
  | first (isFile : loading.tree.isFile (loading.candidate origin resource ".clj") = true) :
      Finds loading origin resource (loading.candidate origin resource ".clj")
  | second (absent : loading.tree.isFile (loading.candidate origin resource ".clj") = false)
      (isFile : loading.tree.isFile (loading.candidate origin resource ".cljc") = true) :
      Finds loading origin resource (loading.candidate origin resource ".cljc")

/-- The file is text that can be read to its end, and these are its forms. -/
inductive Reads (loading : Loading) (path : Path) (isMain : Bool) : SourceUnit → List Form → Prop where
  | intro {text : String} {forms : List Form} (read : loading.tree.readText path = .ok text)
      (whole : readAll loading.features text = .ok forms) :
      Reads loading path isMain
        ⟨path, isMain, .ofText loading.space (loading.root.relativeTo path) text⟩ forms

/-- Forms and resources are followed in order, which gives the forms on the way.
A form that loads stands for its resources. Each of them is found in a file,
which is read if it has not been met; its forms come before the next resource,
unless it switches to another namespace. The files met before are given and those
met afterwards returned, the last one first. -/
inductive Follows (loading : Loading) :
    List LoadTask → List Path → List (SourceUnit × Form) → List Path → Prop where
  | nothing {met : List Path} : Follows loading [] met [] met
  | form {origin : SourceUnit} {form : Form} {rest : List LoadTask} {met after : List Path}
      {sequence : List (SourceUnit × Form)} (loadsNothing : ∀ names, ¬ form.Loads names)
      (outside : Follows loading rest met sequence after) :
      Follows loading (.form origin form :: rest) met ((origin, form) :: sequence) after
  | load {origin : SourceUnit} {form : Form} {names : List String} {rest : List LoadTask}
      {met between after : List Path} {inner outer : List (SourceUnit × Form)}
      (loads : form.Loads names)
      (inside : Follows loading (names.map (.resource origin.path)) met inner between)
      (outside : Follows loading rest between outer after) :
      Follows loading (.form origin form :: rest) met (inner ++ outer) after
  | known {origin path : Path} {name : String} {rest : List LoadTask} {met after : List Path}
      {sequence : List (SourceUnit × Form)} (found : loading.Finds origin name path)
      (again : path.MetIn met) (outside : Follows loading rest met sequence after) :
      Follows loading (.resource origin name :: rest) met sequence after
  | skipped {origin path : Path} {name other : String} {unit : SourceUnit} {forms : List Form}
      {rest : List LoadTask} {met after : List Path} {sequence : List (SourceUnit × Form)}
      (found : loading.Finds origin name path) (new : ¬ path.MetIn met)
      (reads : loading.Reads path false unit forms) (switches : Switches forms other)
      (differs : other ≠ loading.space)
      (outside : Follows loading rest (path :: met) sequence after) :
      Follows loading (.resource origin name :: rest) met sequence after
  | entered {origin path : Path} {name : String} {unit : SourceUnit} {forms : List Form}
      {rest : List LoadTask} {met between after : List Path}
      {inner outer : List (SourceUnit × Form)}
      (found : loading.Finds origin name path) (new : ¬ path.MetIn met)
      (reads : loading.Reads path false unit forms)
      (stays : ∀ other, Switches forms other → other = loading.space)
      (inside : Follows loading (forms.map (.form unit)) (path :: met) inner between)
      (outside : Follows loading rest between outer after) :
      Follows loading (.resource origin name :: rest) met (inner ++ outer) after

variable {loading : Loading}

theorem finds_iff {origin path : Path} {resource : String} :
    loading.Finds origin resource path ↔ loading.find? origin resource = some path := by
  rw [find?, candidates_eq, List.find?_cons, List.find?_cons, List.find?_nil]
  constructor
  · rintro (isFile | ⟨absent, isFile⟩)
    · rw [candidate] at isFile
      rw [isFile]
      rfl
    · rw [candidate] at absent isFile
      rw [absent, isFile]
      rfl
  · intro found
    split at found
    next isFile =>
      cases found
      exact .first isFile
    next absent =>
      split at found
      next isFile =>
        cases found
        exact .second absent isFile
      · contradiction

theorem openFile_eq_ok_iff {path : Path} {text : String} {forms : List Form} :
    loading.openFile path = .ok (text, forms) ↔
      loading.tree.readText path = .ok text ∧ readAll loading.features text = .ok forms := by
  unfold openFile
  split
  next cause failed => simp [failed]
  next found read =>
    rw [read, Except.ok.injEq]
    split
    next error malformed =>
      refine iff_of_false (by simp) ?_
      rintro ⟨rfl, whole⟩
      rw [malformed] at whole
      contradiction
    next others whole =>
      rw [Except.ok.injEq, Prod.mk.injEq]
      refine and_congr_right ?_
      rintro rfl
      rw [whole, Except.ok.injEq]

theorem reads_iff {path : Path} {isMain : Bool} {unit : SourceUnit} {forms : List Form} :
    loading.Reads path isMain unit forms ↔
      ∃ text, loading.openFile path = .ok (text, forms) ∧ unit = loading.unitOf path isMain text := by
  simp only [openFile_eq_ok_iff]
  constructor
  · rintro ⟨read, whole⟩
    exact ⟨_, ⟨read, whole⟩, rfl⟩
  · rintro ⟨text, ⟨read, whole⟩, rfl⟩
    exact .intro read whole

theorem otherNamespace?_eq_some_iff {forms : List Form} {other : String} :
    loading.otherNamespace? forms = some other ↔ Switches forms other ∧ other ≠ loading.space := by
  rw [otherNamespace?, Option.filter_eq_some_iff, switches_iff, bne_iff_ne]

theorem otherNamespace?_eq_none_iff {forms : List Form} :
    loading.otherNamespace? forms = none ↔ ∀ other, Switches forms other → other = loading.space := by
  simp only [Option.eq_none_iff_forall_ne_some, ne_eq, otherNamespace?_eq_some_iff, not_and, not_not]

theorem follows_nil_iff {met after : List Path} {sequence : List (SourceUnit × Form)} :
    loading.Follows [] met sequence after ↔ sequence = [] ∧ after = met := by
  constructor
  · rintro ⟨⟩
    exact ⟨rfl, rfl⟩
  · rintro ⟨rfl, rfl⟩
    exact .nothing

theorem follows_append_iff {first second : List LoadTask} {met after : List Path}
    {sequence : List (SourceUnit × Form)} :
    loading.Follows (first ++ second) met sequence after ↔
      ∃ inner outer between, sequence = inner ++ outer ∧ loading.Follows first met inner between ∧
        loading.Follows second between outer after := by
  constructor
  · intro follows
    induction first generalizing met sequence with
    | nil => exact ⟨[], sequence, met, rfl, .nothing, follows⟩
    | cons task rest ih =>
      cases follows with
      | form loadsNothing outside =>
        obtain ⟨inner, outer, between, rfl, before, behind⟩ := ih outside
        exact ⟨_ :: inner, outer, between, rfl, .form loadsNothing before, behind⟩
      | load loads inside outside =>
        obtain ⟨inner, outer, between, rfl, before, behind⟩ := ih outside
        exact ⟨_ ++ inner, outer, between, (List.append_assoc ..).symm, .load loads inside before,
          behind⟩
      | known found again outside =>
        obtain ⟨inner, outer, between, rfl, before, behind⟩ := ih outside
        exact ⟨inner, outer, between, rfl, .known found again before, behind⟩
      | skipped found new reads switches differs outside =>
        obtain ⟨inner, outer, between, rfl, before, behind⟩ := ih outside
        exact ⟨inner, outer, between, rfl, .skipped found new reads switches differs before, behind⟩
      | entered found new reads stays inside outside =>
        obtain ⟨inner, outer, between, rfl, before, behind⟩ := ih outside
        exact ⟨_ ++ inner, outer, between, (List.append_assoc ..).symm,
          .entered found new reads stays inside before, behind⟩
  · rintro ⟨inner, outer, between, rfl, before, behind⟩
    induction before with
    | nothing => exact behind
    | form loadsNothing _ ih => exact .form loadsNothing (ih behind)
    | load loads inside _ _ ih =>
      rw [List.append_assoc]
      exact .load loads inside (ih behind)
    | known found again _ ih => exact .known found again (ih behind)
    | skipped found new reads switches differs _ ih =>
      exact .skipped found new reads switches differs (ih behind)
    | entered found new reads stays inside _ _ ih =>
      rw [List.append_assoc]
      exact .entered found new reads stays inside (ih behind)

section
variable {rest : List LoadTask} {met after : List Path} {sequence : List (SourceUnit × Form)}

theorem follows_form_iff {origin : SourceUnit} {form : Form}
    (loadsNothing : loadResources? form = none) :
    loading.Follows (.form origin form :: rest) met sequence after ↔
      ∃ later, sequence = [(origin, form)] ++ later ∧ loading.Follows rest met later after := by
  constructor
  · intro follows
    cases follows with
    | form _ outside => exact ⟨_, rfl, outside⟩
    | load loads => cases loadsNothing.symm.trans (Form.loads_iff.1 loads)
  · rintro ⟨later, rfl, outside⟩
    exact .form (Form.forall_not_loads_iff.2 loadsNothing) outside

theorem follows_load_iff {origin : SourceUnit} {form : Form} {names : List String}
    (loads : loadResources? form = some names) :
    loading.Follows (.form origin form :: rest) met sequence after ↔
      loading.Follows (names.map (.resource origin.path) ++ rest) met sequence after := by
  rw [follows_append_iff]
  constructor
  · intro follows
    cases follows with
    | form loadsNothing => exact absurd (Form.loads_iff.2 loads) (loadsNothing names)
    | load loads' inside outside =>
      cases loads.symm.trans (Form.loads_iff.1 loads')
      exact ⟨_, _, _, rfl, inside, outside⟩
  · rintro ⟨inner, outer, between, rfl, inside, outside⟩
    exact .load (Form.loads_iff.2 loads) inside outside

/-- What becomes of a resource that is found depends on whether its file has been
met, and on what that file switches to. -/
theorem follows_resource_iff {origin path : Path} {name : String}
    (found : loading.find? origin name = some path) :
    loading.Follows (.resource origin name :: rest) met sequence after ↔
      (path.MetIn met ∧ loading.Follows rest met sequence after) ∨
      (¬ path.MetIn met ∧ ∃ read, loading.openFile path = .ok read ∧
        ((loading.otherNamespace? read.2 ≠ none ∧ loading.Follows rest (path :: met) sequence after) ∨
          (loading.otherNamespace? read.2 = none ∧
            loading.Follows (loading.tasksOf path false read ++ rest) (path :: met) sequence after))) := by
  constructor
  · intro follows
    cases follows with
    | known found' again outside =>
      obtain rfl := Option.some.inj (found.symm.trans (finds_iff.1 found'))
      exact .inl ⟨again, outside⟩
    | skipped found' new reads switches differs outside =>
      obtain rfl := Option.some.inj (found.symm.trans (finds_iff.1 found'))
      obtain ⟨text, opened, -⟩ := reads_iff.1 reads
      have switched := otherNamespace?_eq_some_iff.2 ⟨switches, differs⟩
      exact .inr ⟨new, _, opened, .inl ⟨by simp [switched], outside⟩⟩
    | entered found' new reads stays inside outside =>
      obtain rfl := Option.some.inj (found.symm.trans (finds_iff.1 found'))
      obtain ⟨text, opened, rfl⟩ := reads_iff.1 reads
      exact .inr ⟨new, _, opened, .inr ⟨otherNamespace?_eq_none_iff.2 stays,
        follows_append_iff.2 ⟨_, _, _, rfl, inside, outside⟩⟩⟩
  · rintro (⟨again, outside⟩ | ⟨new, ⟨text, forms⟩, opened, ⟨switches, outside⟩ | ⟨stays, follows⟩⟩)
    · exact .known (finds_iff.2 found) again outside
    · obtain ⟨other, switched⟩ := Option.ne_none_iff_exists'.1 switches
      obtain ⟨switches, differs⟩ := otherNamespace?_eq_some_iff.1 switched
      exact .skipped (finds_iff.2 found) new (reads_iff.2 ⟨text, opened, rfl⟩) switches differs outside
    · obtain ⟨inner, outer, between, rfl, inside, outside⟩ := follows_append_iff.1 follows
      exact .entered (finds_iff.2 found) new (reads_iff.2 ⟨text, opened, rfl⟩)
        (otherNamespace?_eq_none_iff.1 stays) inside outside

end

/-- A step is one rule of following. It interns what the forms define that it
passes, and meets the files that it reads. -/
theorem Step.follows {state after : LoadState} {events : List Event}
    (step : loading.Step state events after) :
    ∃ passed, after.vars = state.vars.insertAll (definitionsOf passed) ∧
      after.visited.paths = (filesRead events).reverse ++ state.visited.paths ∧
      ∀ sequence met, loading.Follows state.tasks state.visited.paths sequence met ↔
        ∃ later, sequence = passed ++ later ∧
          loading.Follows after.tasks after.visited.paths later met := by
  cases step with
  | @declaration _ _ origin form _ declares =>
    refine ⟨[(origin, form)], ?_, rfl, fun sequence met => ?_⟩
    · rw [definitionsOf_cons, ofForm_of_declaration declares]
      rfl
    · exact follows_form_iff (loadResources?_of_declaration declares)
  | load _ loads =>
    refine ⟨[], rfl, rfl, fun sequence met => ?_⟩
    rw [follows_load_iff loads]
    simp
  | @definition _ _ origin form _ _ loadsNothing =>
    refine ⟨[(origin, form)], ?_, rfl, fun sequence met => follows_form_iff loadsNothing⟩
    rw [definitionsOf_cons]
    exact congrArg _ (List.append_nil _).symm
  | known found again =>
    refine ⟨[], rfl, rfl, fun sequence met => ?_⟩
    rw [Visited.has_iff] at again
    rw [follows_resource_iff found]
    simp [again]
  | skipped found new opened switches =>
    refine ⟨[], rfl, rfl, fun sequence met => ?_⟩
    rw [Visited.has_eq_false_iff] at new
    rw [follows_resource_iff found]
    simp [new, opened, switches, Visited.add]
  | entered found new opened stays =>
    refine ⟨[], rfl, rfl, fun sequence met => ?_⟩
    rw [Visited.has_eq_false_iff] at new
    rw [follows_resource_iff found]
    simp [new, opened, stays, Visited.add]

/-- A run that succeeds has followed its tasks, in the one way there is. -/
theorem Runs.follows {state : LoadState} {events : List Event}
    {outcome : Except LoadError (Dict Metadata)} (runs : loading.Runs state events outcome)
    {vars : Dict Metadata} (succeeded : outcome = .ok vars) :
    ∃ sequence, vars = state.vars.insertAll (definitionsOf sequence) ∧
      ∀ other met, loading.Follows state.tasks state.visited.paths other met ↔
        other = sequence ∧ met = (filesRead events).reverse ++ state.visited.paths := by
  induction runs with
  | done =>
    cases succeeded
    exact ⟨[], rfl, fun other met => follows_nil_iff⟩
  | stuck => contradiction
  | next step _ ih =>
    obtain ⟨later, interned, following⟩ := ih succeeded
    obtain ⟨passed, made, grown, follows_iff⟩ := step.follows
    refine ⟨passed ++ later, ?_, fun other met => ?_⟩
    · rw [interned, made, ← Dict.insertAll_append, definitionsOf, definitionsOf, definitionsOf,
        List.flatMap_append]
    · simp only [follows_iff, following]
      rw [grown, filesRead_append, List.reverse_append, List.append_assoc]
      constructor
      · rintro ⟨_, rfl, rfl, met⟩
        exact ⟨rfl, met⟩
      · rintro ⟨rfl, met⟩
        exact ⟨later, rfl, rfl, met⟩

theorem load_follows {path : Path} {vars : Dict Metadata}
    (succeeded : (loading.load path).value = .ok vars) :
    ∃ unit forms sequence, loading.Reads path true unit forms ∧
      vars = Dict.insertAll ∅ (definitionsOf sequence) ∧
      ∀ other met, loading.Follows (forms.map (.form unit)) [path] other met ↔
        other = sequence ∧ met = (filesRead (loading.load path).events).reverse := by
  rcases loading.load_cases path with
    ⟨error, -, loaded⟩ | ⟨text, forms, opened, events, outcome, runs, loaded⟩
  · rw [loaded] at succeeded
    contradiction
  · rw [loaded] at succeeded ⊢
    obtain ⟨sequence, interned, follows_iff⟩ := runs.follows succeeded
    refine ⟨_, forms, sequence, reads_iff.2 ⟨text, opened, rfl⟩, interned, fun other met => ?_⟩
    rw [filesRead_reading, List.reverse_cons]
    exact follows_iff other met

theorem Follows.met_subset {tasks : List LoadTask} {met after : List Path}
    {sequence : List (SourceUnit × Form)} (follows : loading.Follows tasks met sequence after) :
    met ⊆ after := by
  induction follows with
  | nothing => exact List.Subset.refl _
  | form _ _ ih | known _ _ _ ih => exact ih
  | load _ _ _ ihInside ihOutside => exact List.Subset.trans ihInside ihOutside
  | skipped _ _ _ _ _ _ ih => exact List.subset_of_cons_subset ih
  | entered _ _ _ _ _ _ ihInside ihOutside =>
    exact List.Subset.trans (List.subset_of_cons_subset ihInside) ihOutside

theorem Follows.supplied {tasks : List LoadTask} {met after : List Path}
    {sequence : List (SourceUnit × Form)} (follows : loading.Follows tasks met sequence after)
    {unit : SourceUnit} {form : Form} (member : (unit, form) ∈ sequence) :
    LoadTask.form unit form ∈ tasks ∨
      ∃ path ∈ after, ∃ forms, loading.Reads path false unit forms ∧ form ∈ forms := by
  induction follows with
  | nothing => cases member
  | form _ _ ih =>
    rcases List.mem_cons.1 member with same | later
    · cases same
      exact .inl List.mem_cons_self
    · exact (ih later).imp_left (List.mem_cons_of_mem _)
  | load _ _ outside ihInside ihOutside =>
    rcases List.mem_append.1 member with inner | outer
    · rcases ihInside inner with listed | ⟨path, isMet, fromFile⟩
      · obtain ⟨_, -, same⟩ := List.mem_map.1 listed
        contradiction
      · exact .inr ⟨path, outside.met_subset isMet, fromFile⟩
    · exact (ihOutside outer).imp_left (List.mem_cons_of_mem _)
  | known _ _ _ ih | skipped _ _ _ _ _ _ ih =>
    exact (ih member).imp_left (List.mem_cons_of_mem _)
  | @entered _ path _ _ forms _ _ _ _ _ _ _ _ reads _ inside outside ihInside ihOutside =>
    rcases List.mem_append.1 member with inner | outer
    · rcases ihInside inner with listed | ⟨path, isMet, fromFile⟩
      · obtain ⟨_, inFile, same⟩ := List.mem_map.1 listed
        cases same
        have isMet := outside.met_subset (inside.met_subset List.mem_cons_self)
        exact .inr ⟨path, isMet, forms, reads, inFile⟩
      · exact .inr ⟨path, outside.met_subset isMet, fromFile⟩
    · exact (ihOutside outer).imp_left (List.mem_cons_of_mem _)

end Loading

end VarDoc
