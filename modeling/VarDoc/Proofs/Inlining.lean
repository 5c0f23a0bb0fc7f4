import VarDoc.Proofs.PlainLoading

/-! Loading is inlining. The forms that a load interprets are those of its file,
with each resource replaced by the forms of the file it names where that file is
met for the first time, depth first, and by nothing anywhere else. The vars are
what the definitions in this sequence intern one after the other. -/

set_option autoImplicit false

namespace VarDoc

def definitionsOf (sequence : List (SourceUnit × Form)) : List Definition :=
  sequence.flatMap fun entry => Definition.ofForm entry.1.site entry.2

theorem definitionsOf_cons (origin : SourceUnit) (form : Form) (rest : List (SourceUnit × Form)) :
    definitionsOf ((origin, form) :: rest) = Definition.ofForm origin.site form ++ definitionsOf rest :=
  List.flatMap_cons

namespace Loading

structure Names (loading : Loading) (origin : Path) (name : String) (path : Path)
    (entry : List String) : Prop where
  found : loading.find? origin name = some path
  leads : loading.tree.resolve path = .ok entry

theorem Names.unique {loading : Loading} {origin path path' : Path} {name : String}
    {entry entry' : List String} (names : loading.Names origin name path entry)
    (names' : loading.Names origin name path' entry') : path = path' ∧ entry = entry' := by
  obtain rfl := Option.some.inj (names.found.symm.trans names'.found)
  exact ⟨rfl, Except.ok.inj (names.leads.symm.trans names'.leads)⟩

/-- Forms and resources are expanded into a sequence of forms. The entries met
before are given and those met afterwards returned. -/
inductive Expands (loading : Loading) :
    List LoadTask → List (List String) → List (SourceUnit × Form) → List (List String) → Prop where
  | nothing {met : List (List String)} : Expands loading [] met [] met
  | kept {origin : SourceUnit} {form : Form} {rest : List LoadTask} {met after : List (List String)}
      {sequence : List (SourceUnit × Form)} (loadsNothing : loadResources? form = none)
      (expands : Expands loading rest met sequence after) :
      Expands loading (.form origin form :: rest) met ((origin, form) :: sequence) after
  | load {origin : SourceUnit} {form : Form} {rest : List LoadTask} {names : List String}
      {met between after : List (List String)} {inner outer : List (SourceUnit × Form)}
      (loads : loadResources? form = some names)
      (inside : Expands loading (names.map (.resource origin.path)) met inner between)
      (outside : Expands loading rest between outer after) :
      Expands loading (.form origin form :: rest) met (inner ++ outer) after
  | again {origin path : Path} {name : String} {entry : List String} {rest : List LoadTask}
      {met after : List (List String)} {sequence : List (SourceUnit × Form)}
      (names : loading.Names origin name path entry)
      (known : entry ∈ met) (expands : Expands loading rest met sequence after) :
      Expands loading (.resource origin name :: rest) met sequence after
  | other {origin path : Path} {name text : String} {forms : List Form} {entry : List String}
      {rest : List LoadTask} {met after : List (List String)} {sequence : List (SourceUnit × Form)}
      (names : loading.Names origin name path entry)
      (new : entry ∉ met) (opened : loading.openFile path = .ok (text, forms))
      (switches : loading.otherNamespace? forms ≠ none)
      (expands : Expands loading rest (entry :: met) sequence after) :
      Expands loading (.resource origin name :: rest) met sequence after
  | inlined {origin path : Path} {name text : String} {forms : List Form} {entry : List String}
      {rest : List LoadTask} {met between after : List (List String)}
      {inner outer : List (SourceUnit × Form)}
      (names : loading.Names origin name path entry)
      (new : entry ∉ met) (opened : loading.openFile path = .ok (text, forms))
      (stays : loading.otherNamespace? forms = none)
      (inside : Expands loading (loading.tasksOf path false (text, forms)) (entry :: met) inner between)
      (outside : Expands loading rest between outer after) :
      Expands loading (.resource origin name :: rest) met (inner ++ outer) after

def Inlines (loading : Loading) (path : Path) (sequence : List (SourceUnit × Form)) : Prop :=
  ∃ text forms entry met, loading.openFile path = .ok (text, forms) ∧
    loading.tree.resolve path = .ok entry ∧
    loading.Expands (loading.tasksOf path true (text, forms)) [entry] sequence met

variable {loading : Loading}

theorem Expands.unique {tasks : List LoadTask} {met after other : List (List String)}
    {sequence sequence' : List (SourceUnit × Form)} (expands : loading.Expands tasks met sequence after)
    (expands' : loading.Expands tasks met sequence' other) : sequence = sequence' ∧ after = other := by
  induction expands generalizing sequence' other with
  | nothing =>
    cases expands'
    exact ⟨rfl, rfl⟩
  | kept loadsNothing _ ih =>
    cases expands' with
    | kept _ rest =>
      obtain ⟨rfl, rfl⟩ := ih rest
      exact ⟨rfl, rfl⟩
    | load loads => cases loadsNothing.symm.trans loads
  | load loads _ _ ihInside ihOutside =>
    cases expands' with
    | kept loadsNothing => cases loadsNothing.symm.trans loads
    | load loads' inside outside =>
      cases loads.symm.trans loads'
      obtain ⟨rfl, rfl⟩ := ihInside inside
      obtain ⟨rfl, rfl⟩ := ihOutside outside
      exact ⟨rfl, rfl⟩
  | again names known _ ih =>
    cases expands' with
    | again _ _ rest => exact ih rest
    | other names' new | inlined names' new =>
      obtain ⟨rfl, rfl⟩ := names.unique names'
      exact absurd known new
  | other names new opened switches _ ih =>
    cases expands' with
    | again names' known =>
      obtain ⟨rfl, rfl⟩ := names.unique names'
      exact absurd known new
    | other names' _ _ _ rest =>
      obtain ⟨rfl, rfl⟩ := names.unique names'
      exact ih rest
    | inlined names' _ opened' stays =>
      obtain ⟨rfl, rfl⟩ := names.unique names'
      cases opened.symm.trans opened'
      exact absurd stays switches
  | inlined names new opened stays _ _ ihInside ihOutside =>
    cases expands' with
    | again names' known =>
      obtain ⟨rfl, rfl⟩ := names.unique names'
      exact absurd known new
    | other names' _ opened' switches =>
      obtain ⟨rfl, rfl⟩ := names.unique names'
      cases opened.symm.trans opened'
      exact absurd stays switches
    | inlined names' _ opened' _ inside outside =>
      obtain ⟨rfl, rfl⟩ := names.unique names'
      cases opened.symm.trans opened'
      obtain ⟨rfl, rfl⟩ := ihInside inside
      obtain ⟨rfl, rfl⟩ := ihOutside outside
      exact ⟨rfl, rfl⟩

theorem Expands.of_append {first second : List LoadTask} {met after : List (List String)}
    {sequence : List (SourceUnit × Form)} (expands : loading.Expands (first ++ second) met sequence after) :
    ∃ inner outer between, sequence = inner ++ outer ∧ loading.Expands first met inner between ∧
      loading.Expands second between outer after := by
  induction first generalizing met sequence with
  | nil => exact ⟨[], sequence, met, rfl, .nothing, expands⟩
  | cons task rest ih =>
    cases expands with
    | kept loadsNothing expands =>
      obtain ⟨inner, outer, between, rfl, before, behind⟩ := ih expands
      exact ⟨_ :: inner, outer, between, rfl, .kept loadsNothing before, behind⟩
    | load loads inside outside =>
      obtain ⟨inner, outer, between, rfl, before, behind⟩ := ih outside
      exact ⟨_ ++ inner, outer, between, (List.append_assoc ..).symm, .load loads inside before, behind⟩
    | again names known expands =>
      obtain ⟨inner, outer, between, rfl, before, behind⟩ := ih expands
      exact ⟨inner, outer, between, rfl, .again names known before, behind⟩
    | other names new opened switches expands =>
      obtain ⟨inner, outer, between, rfl, before, behind⟩ := ih expands
      exact ⟨inner, outer, between, rfl, .other names new opened switches before, behind⟩
    | inlined names new opened stays inside outside =>
      obtain ⟨inner, outer, between, rfl, before, behind⟩ := ih outside
      exact ⟨_ ++ inner, outer, between, (List.append_assoc ..).symm,
        .inlined names new opened stays inside before, behind⟩

/-- Just the entries met so far count as met, under any plain path. -/
def Agrees (loading : Loading) (visited : Visited) (met : List (List String)) : Prop :=
  ∀ path entry, path.Plain → loading.tree.resolve path = .ok entry →
    (visited.has path = true ↔ entry ∈ met)

theorem Agrees.add {visited : Visited} {met : List (List String)} (agrees : loading.Agrees visited met)
    {path : Path} {entry : List String} (plain : path.Plain)
    (leads : loading.tree.resolve path = .ok entry) (new : visited.has path = false)
    (short : path.size < FileTree.pathLimit) :
    loading.Agrees (visited.add path new short) (entry :: met) := by
  intro other otherEntry otherPlain otherLeads
  have grown : (visited.add path new short).has other = (path.same other || visited.has other) := rfl
  rw [grown, Bool.or_eq_true, Path.same_iff, agrees other otherEntry otherPlain otherLeads,
    List.mem_cons]
  -- Equal components lead to one entry; the converse needs both paths to be plain.
  refine or_congr_left ⟨fun same => ?_, fun same => ?_⟩
  · exact FileTree.resolve_of_components same.symm otherLeads leads
  · have sameEntry : loading.tree.SameEntry path other := ⟨entry, leads, same ▸ otherLeads⟩
    exact sameEntry.components_eq plain otherPlain

theorem ofForm_of_declaration {form : Form} (declares : form.isCallTo "ns" = true) (site : Site) :
    Definition.ofForm site form = [] := by
  rw [Form.isCallTo, beq_iff_eq] at declares
  unfold Definition.ofForm
  rw [declares]
  cases form.list? <;> rfl

theorem names_of_find? {origin path : Path} {name : String}
    (found : loading.find? origin name = some path) :
    ∃ entry, loading.Names origin name path entry := by
  obtain ⟨entry, -, leads, -⟩ := FileTree.isFile_iff.1 (List.find?_some found)
  exact ⟨entry, found, leads⟩

/-- A run that succeeds has interned the definitions in the expansion of its
tasks. -/
theorem Runs.expands {state : LoadState} {events : List Event}
    {outcome : Except LoadError (Dict Metadata)} (runs : loading.Runs state events outcome)
    (plainRoot : loading.root.Plain) (tasks : ∀ task ∈ state.tasks, task.Plain)
    (resources : ∀ path ∈ filesRead events, loading.PlainResources path)
    {vars : Dict Metadata} (succeeded : outcome = .ok vars)
    (met : List (List String)) (agrees : loading.Agrees state.visited met) :
    ∃ sequence after, loading.Expands state.tasks met sequence after ∧
      vars = state.vars.insertAll (definitionsOf sequence) := by
  induction runs generalizing met with
  | done =>
    cases succeeded
    exact ⟨[], met, .nothing, rfl⟩
  | stuck => contradiction
  | next step runs ih =>
    rw [filesRead_append, List.forall_mem_append] at resources
    have tasksAfter := (step.plain plainRoot tasks resources.1).1
    have later := ih tasksAfter resources.2 succeeded
    cases step with
    | declaration declares =>
      obtain ⟨sequence, after, expands, interned⟩ := later met agrees
      refine ⟨_, after, .kept (loadResources?_of_declaration declares) expands, ?_⟩
      rw [definitionsOf_cons, ofForm_of_declaration declares]
      exact interned
    | definition other loadsNothing =>
      obtain ⟨sequence, after, expands, interned⟩ := later met agrees
      refine ⟨_, after, .kept loadsNothing expands, ?_⟩
      rw [definitionsOf_cons, Dict.insertAll_append]
      exact interned
    | load other loads =>
      obtain ⟨sequence, after, expands, interned⟩ := later met agrees
      obtain ⟨inner, outer, between, rfl, inside, outside⟩ := expands.of_append
      exact ⟨_, after, .load loads inside outside, interned⟩
    | known found has =>
      obtain ⟨entry, names⟩ := names_of_find? found
      have plain := find?_plain plainRoot (tasks _ List.mem_cons_self) found
      obtain ⟨sequence, after, expands, interned⟩ := later met agrees
      exact ⟨_, after, .again names ((agrees _ _ plain names.leads).1 has) expands, interned⟩
    | skipped found new opened switches =>
      obtain ⟨entry, names⟩ := names_of_find? found
      have plain := find?_plain plainRoot (tasks _ List.mem_cons_self) found
      have unmet := not_congr (agrees _ _ plain names.leads)
      have grown := agrees.add plain names.leads new (size_lt_of_openFile opened)
      obtain ⟨sequence, after, expands, interned⟩ := later _ grown
      exact ⟨_, after, .other names (unmet.1 (by simp [new])) opened (by simp [switches]) expands,
        interned⟩
    | entered found new opened stays =>
      obtain ⟨entry, names⟩ := names_of_find? found
      have plain := find?_plain plainRoot (tasks _ List.mem_cons_self) found
      have unmet := not_congr (agrees _ _ plain names.leads)
      have grown := agrees.add plain names.leads new (size_lt_of_openFile opened)
      obtain ⟨sequence, after, expands, interned⟩ := later _ grown
      obtain ⟨inner, outer, between, rfl, inside, outside⟩ := expands.of_append
      exact ⟨_, after, .inlined names (unmet.1 (by simp [new])) opened stays inside outside, interned⟩

theorem load_inlines {path : Path} (plainRoot : loading.root.Plain) (plain : path.Plain)
    (resources : ∀ origin ∈ filesRead (loading.load path).events, loading.PlainResources origin)
    {vars : Dict Metadata} (succeeded : (loading.load path).value = .ok vars) :
    ∃ sequence, loading.Inlines path sequence ∧ vars = Dict.ofList (definitionsOf sequence) := by
  rcases loading.load_cases path with
    ⟨error, -, loaded⟩ | ⟨text, forms, opened, events, outcome, runs, loaded⟩
  · rw [loaded] at succeeded
    contradiction
  · rw [loaded] at succeeded
    rw [loaded, filesRead_reading, List.forall_mem_cons] at resources
    obtain ⟨entry, -, leads, -⟩ := resolve_of_openFile opened
    have nothing : loading.Agrees .empty [] := fun _ _ _ _ => by simp [Visited.has, Visited.empty]
    obtain ⟨sequence, met, expands, interned⟩ :=
      runs.expands plainRoot (plain_tasksOf plain resources.1 opened) resources.2 succeeded _
        (nothing.add plain leads rfl (size_lt_of_openFile opened))
    exact ⟨sequence, ⟨text, forms, entry, met, opened, leads, expands⟩, interned⟩

theorem Inlines.unique {path : Path} {sequence other : List (SourceUnit × Form)}
    (inlines : loading.Inlines path sequence) (inlines' : loading.Inlines path other) :
    sequence = other := by
  obtain ⟨text, forms, entry, met, opened, leads, expands⟩ := inlines
  obtain ⟨text', forms', entry', met', opened', leads', expands'⟩ := inlines'
  cases opened.symm.trans opened'
  cases leads.symm.trans leads'
  exact (expands.unique expands').1

end Loading

/-- With plain paths a load reads no entry twice, and never more than there are
files. If it succeeds, the vars are those of the forms with all loads inlined,
and the last definition of a name wins. -/
theorem load_interns_inlined_definitions (loader : Loader) (tree : FileTree) (source : SourceFile)
    (name : String) :
    let loading : Loading := ⟨tree, loader.features, source.root, name⟩
    let loaded := loader.load tree source name
    let read := filesRead loaded.events
    source.root.Plain → source.path.Plain →
      (∀ origin ∈ read, ∀ resource ∈ loading.resourcesOf origin, (resourcePath resource).Plain) →
      (read.Pairwise fun earlier later => ¬ tree.SameEntry earlier later) ∧
        read.length ≤ max 1 tree.root.fileEntries.length ∧
        ∀ space, loaded.value.1 = .ok space → ∃ sequence,
          (∀ other, loading.Inlines source.path other ↔ other = sequence) ∧
            space.vars = Dict.ofList (definitionsOf sequence) ∧
            ∀ var, space.vars.get? var = lookupEntry var (definitionsOf sequence).reverse := by
  intro loading loaded read plainRoot plain resources
  change loading.root.Plain at plainRoot
  have reads : read = filesRead (loading.load source.path).events := loader.filesRead_load ..
  have value : loaded.value.1 = (loading.load source.path).value.map (.mk name) := loader.load_value ..
  rw [reads] at resources ⊢
  refine ⟨Loading.load_reads_entries_once plainRoot plain resources,
    Loading.load_reads_bounded plainRoot plain resources, ?_⟩
  intro space succeeded
  rw [value] at succeeded
  obtain ⟨vars, isOk, rfl⟩ := exceptMap_eq_ok_iff.1 succeeded
  obtain ⟨sequence, inlines, interned⟩ := Loading.load_inlines plainRoot plain resources isOk
  refine ⟨sequence, fun other => ⟨fun also => also.unique inlines, fun same => same ▸ inlines⟩,
    interned, ?_⟩
  intro var
  change vars.get? var = _
  rw [interned]
  exact (Dict.get?_insertAll ∅ _ var).trans (Option.or_none ..)

/-- A namespace in two files that load each other, and both of them a file of
another namespace. -/
def circularTree : FileTree where
  root := .directory [("src", .directory [("app", .directory
    [("main.clj", .file
        "(ns app.main)\n(def x 1)\n(load \"part\" \"/app/other\")\n(def y 1)\n".toUTF8),
      ("other.clj", .file "(ns app.other)\n(def x 3)\n".toUTF8),
      ("part.clj", .file
        "(load \"main\")\n(def x 2)\n(load \"/app/other\")\n(def y 2)\n".toUTF8)])])]
  workingDirectory := []

/-- Each file is read once, and the last definitions of `x` and `y` win. -/
theorem circular_load_inlined :
    let loading : Loading := ⟨circularTree, ["clj"], ⟨"src"⟩, "app.main"⟩
    let loaded := (Loader.new ["clj"]).load circularTree ⟨⟨"src"⟩, ⟨"src/app/main.clj"⟩⟩ "app.main"
    filesRead loaded.events =
        [⟨"src/app/main.clj"⟩, ⟨"src/app/part.clj"⟩, ⟨"src/app/other.clj"⟩] ∧
      ∃ space sequence, loaded.value.1 = .ok space ∧
        recordedFiles space = [some "app/part.clj", some "app/main.clj"] ∧
        loading.Inlines ⟨"src/app/main.clj"⟩ sequence ∧
        space.vars.get? "x" = lookupEntry "x" (definitionsOf sequence).reverse := by
  intro loading loaded
  obtain ⟨reads, files⟩ := (Loader.new ["clj"]).see_load circularTree
    ⟨⟨"src"⟩, ⟨"src/app/main.clj"⟩⟩ "app.main" 20 recordedFiles
    [⟨"src/app/main.clj"⟩, ⟨"src/app/part.clj"⟩, ⟨"src/app/other.clj"⟩]
    (some [some "app/part.clj", some "app/main.clj"]) (by decide +kernel)
  have resources : ∀ origin ∈ filesRead loaded.events, ∀ resource ∈ loading.resourcesOf origin,
      (resourcePath resource).Plain := by
    change ∀ origin ∈ filesRead ((Loader.new ["clj"]).load circularTree _ _).events, _
    rw [reads]
    decide +kernel
  obtain ⟨-, -, inlined⟩ := load_interns_inlined_definitions (Loader.new ["clj"]) circularTree
    ⟨⟨"src"⟩, ⟨"src/app/main.clj"⟩⟩ "app.main" (by decide) (by decide) resources
  obtain ⟨space, outcome, recorded⟩ := exceptMap_eq_ok_iff.1 (eq_ok_of_toOption files)
  obtain ⟨sequence, unique, -, last⟩ := inlined space outcome
  exact ⟨reads, space, sequence, outcome, recorded, (unique sequence).2 rfl, last "x"⟩

end VarDoc
