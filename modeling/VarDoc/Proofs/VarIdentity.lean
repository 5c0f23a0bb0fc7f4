import VarDoc.Proofs.ByteOrder
import VarDoc.Proofs.FollowedLoads
import VarDoc.Proofs.InternedNames
import VarDoc.Proofs.LoaderHistory

/-! The identity of loaded vars. The forms met on the way from a file are
interpreted one after the other, and each var is what the last of them that
interns its name makes of it: it carries that name, the namespace, the file of
the form and the place where the form starts. The records of a namespace are
those of its public vars, in order of their names. -/

set_option autoImplicit false

namespace VarDoc

theorem forall₂_split {α β : Type} {R : α → β → Prop} {before after : List α} {entry : α}
    {others : List β} (related : List.Forall₂ R (before ++ entry :: after) others) :
    ∃ front other back, others = front ++ other :: back ∧ R entry other ∧
      List.Forall₂ R after back := by
  induction before generalizing others with
  | nil =>
    cases related with
    | cons here later => exact ⟨[], _, _, rfl, here, later⟩
  | cons first rest ih =>
    cases related with
    | cons _ later =>
      obtain ⟨front, other, back, rfl, here, behind⟩ := ih later
      exact ⟨_ :: front, other, back, rfl, here, behind⟩

namespace Definition

theorem names_of_interns {site : Site} {definitions : List Definition} {interned : List (String × Form)}
    (related : List.Forall₂ (Interns site) definitions interned) :
    definitions.map Prod.fst = interned.map Prod.fst := by
  induction related with
  | nil => rfl
  | cons first _ ih => rw [List.map_cons, List.map_cons, first.1, ih]

theorem names_ofForm (site : Site) (form : Form) :
    (ofForm site form).map Prod.fst = form.interned.map Prod.fst :=
  names_of_interns (interns_ofForm site form)

theorem last_interned {site : Site} {form : Form} {key : String} {metadata : Metadata}
    (found : lookupEntry key (ofForm site form).reverse = some metadata) :
    ∃ before place after, form.interned = before ++ (key, place) :: after ∧
      key ∉ after.map Prod.fst ∧ ∃ given, metadata = site.identify key place.span given := by
  obtain ⟨before, after, split, passed⟩ := lookupEntry_reverse_eq_some_iff.1 found
  have related := interns_ofForm site form
  rw [split] at related
  obtain ⟨front, ⟨name, place⟩, back, interned, ⟨rfl, identified⟩, behind⟩ := forall₂_split related
  refine ⟨front, place, back, interned, ?_, identified⟩
  rw [← names_of_interns behind, List.mem_map]
  rintro ⟨definition, isAfter, same⟩
  exact passed definition isAfter same

end Definition

theorem key_mem_definitionsOf {sequence : List (SourceUnit × Form)} {key : String} :
    key ∈ (definitionsOf sequence).map Prod.fst ↔
      ∃ entry ∈ sequence, key ∈ entry.2.interned.map Prod.fst := by
  simp only [definitionsOf, List.map_flatMap, Definition.names_ofForm, List.mem_flatMap]

/-- The last form that defines a name decides what is interned under it. -/
theorem last_definer {sequence : List (SourceUnit × Form)} {key : String} {metadata : Metadata}
    (found : lookupEntry key (definitionsOf sequence).reverse = some metadata) :
    ∃ before unit form after, sequence = before ++ (unit, form) :: after ∧
      (∀ later ∈ after, key ∉ later.2.interned.map Prod.fst) ∧
      lookupEntry key (Definition.ofForm unit.site form).reverse = some metadata := by
  induction sequence with
  | nil => contradiction
  | cons entry rest ih =>
    obtain ⟨unit, form⟩ := entry
    rw [definitionsOf_cons, List.reverse_append, lookupEntry_append] at found
    cases later : lookupEntry key (definitionsOf rest).reverse with
    | some other =>
      rw [later, Option.some_or] at found
      obtain ⟨before, unit, form, after, rfl, last, defines⟩ := ih (later.trans found)
      exact ⟨_ :: before, unit, form, after, rfl, last, defines⟩
    | none =>
      rw [later, Option.none_or] at found
      rw [lookupEntry_eq_none_iff, List.map_reverse, List.mem_reverse, key_mem_definitionsOf] at later
      exact ⟨[], unit, form, rest, rfl, fun entry member named => later ⟨entry, member, named⟩, found⟩

theorem get?_definitionsOf (sequence : List (SourceUnit × Form)) (key : String) :
    (Dict.insertAll ∅ (definitionsOf sequence)).get? key =
      lookupEntry key (definitionsOf sequence).reverse :=
  (Dict.get?_insertAll ∅ _ key).trans (Option.or_none ..)

theorem get?_of_interned {sequence : List (SourceUnit × Form)} {entry : SourceUnit × Form}
    (member : entry ∈ sequence) {key : String} (interned : key ∈ entry.2.interned.map Prod.fst) :
    ∃ metadata, (Dict.insertAll ∅ (definitionsOf sequence)).get? key = some metadata := by
  rw [get?_definitionsOf, ← Option.ne_none_iff_exists', ne_eq, lookupEntry_eq_none_iff, not_not,
    List.map_reverse, List.mem_reverse, key_mem_definitionsOf]
  exact ⟨entry, member, interned⟩

namespace Loading

/-- The var is what the last form that interns its name makes of it. That form is
one of a file that was read, and the location is where it starts, or where the
signature in it starts. -/
inductive Identifies (loading : Loading) (read : List Path) (sequence : List (SourceUnit × Form))
    (key : String) (metadata : Metadata) : Prop where
  | intro {before after : List (SourceUnit × Form)} {earlier later : List (String × Form)}
      {unit : SourceUnit} {form place : Form} {text : String} {forms : List Form} {front : List Char}
      (split : sequence = before ++ (unit, form) :: after)
      (last : ∀ entry ∈ after, key ∉ entry.2.interned.map Prod.fst)
      (interned : form.interned = earlier ++ (key, place) :: later)
      (lastInForm : key ∉ later.map Prod.fst)
      (defined : lookupEntry key (Definition.ofForm unit.site form).reverse = some metadata)
      (isRead : unit.path ∈ read) (opened : loading.tree.readText unit.path = .ok text)
      (whole : readAll loading.features text = .ok forms) (member : form ∈ forms)
      (stands : place.StandsAfter loading.features text.toList front)
      (identity : Identity loading.space (loading.root.relativeTo unit.path) key
        (Location.after front) metadata)

variable {loading : Loading} {path : Path} {unit : SourceUnit} {forms : List Form}
  {sequence : List (SourceUnit × Form)} {met : List Path}

theorem Follows.from_file (reads : loading.Reads path true unit forms)
    (follows : loading.Follows (forms.map (.form unit)) [path] sequence met) {origin : SourceUnit}
    {form : Form} (member : (origin, form) ∈ sequence) :
    ∃ file ∈ met, ∃ isMain among, loading.Reads file isMain origin among ∧ form ∈ among := by
  rcases follows.supplied member with listed | ⟨file, isMet, among, readsFile, inFile⟩
  · obtain ⟨_, inFile, same⟩ := List.mem_map.1 listed
    cases same
    exact ⟨path, follows.met_subset List.mem_cons_self, true, forms, reads, inFile⟩
  · exact ⟨file, isMet, false, among, readsFile, inFile⟩

theorem Follows.identifies (reads : loading.Reads path true unit forms)
    (follows : loading.Follows (forms.map (.form unit)) [path] sequence met) {read : List Path}
    (isRead : met ⊆ read) {key : String} {metadata : Metadata}
    (found : (Dict.insertAll ∅ (definitionsOf sequence)).get? key = some metadata) :
    loading.Identifies read sequence key metadata := by
  rw [get?_definitionsOf] at found
  obtain ⟨before, origin, form, after, split, last, defined⟩ := last_definer found
  obtain ⟨earlier, place, later, interned, lastInForm, given, rfl⟩ := Definition.last_interned defined
  obtain ⟨file, isMet, isMain, among, readsFile, inFile⟩ :=
    follows.from_file reads (by rw [split]; exact List.mem_append_right _ List.mem_cons_self)
  obtain @⟨text, _, opened, whole⟩ := readsFile
  have isPlace : (key, place) ∈ form.interned := by simp [interned]
  obtain ⟨front, stands, start⟩ := standsAfter_of_readAll whole inFile (Form.place_of_interned isPlace)
  refine .intro split last interned lastInForm defined (isRead isMet) opened whole inFile stands ?_
  -- The location was taken by offset in the whole text; only the front of it matters.
  obtain ⟨back, _, _, _, _, _, content, -⟩ := stands
  have identity := Site.identity_identify
    (.ofText loading.space (loading.root.relativeTo file) text) key place.span given
  have located : (LineIndex.ofText text.toList).locate text.toList place.span.start =
      Location.after front := by
    rw [start, content]
    exact locate_append front back
  rw [← located]
  exact identity

end Loading

theorem isPublic_iff {metadata : Metadata} :
    isPublic metadata = true ↔ metadata.get? "private" ≠ some (.bool true) := by
  unfold isPublic
  split
  next hidden => simp [hidden]
  next shown => exact ⟨fun _ hidden => shown hidden, fun _ => rfl⟩

theorem Identity.name?_normalize {space file key : String} {location : Location} {metadata : Metadata}
    (identity : Identity space file key location metadata) :
    (Record.normalize metadata).name? = some key := by
  rw [Record.name?, Record.text?, Record.get?, Record.normalize, Dict.get?_filterMap, identity.name]
  rfl

def Namespace.publicEntries (space : Namespace) : List (String × Metadata) :=
  space.vars.entries.filter fun entry => isPublic entry.2

theorem Namespace.publics_eq (space : Namespace) : space.publics = space.publicEntries.map Prod.snd := by
  rw [publics, Dict.values, List.filter_map]
  rfl

theorem Namespace.publicEntries_ascending (space : Namespace) :
    (space.publicEntries.map Prod.fst).Pairwise fun earlier later => bytesOf earlier < bytesOf later := by
  rw [List.pairwise_map]
  exact (space.vars.ordered.filter _).imp bytesOf_lt

namespace Loader

theorem load_follows {loader : Loader} {tree : FileTree} {source : SourceFile} {name : String}
    {space : Namespace} (loaded : (loader.load tree source name).value.1 = .ok space) :
    let loading : Loading := ⟨tree, loader.features, source.root, name⟩
    ∃ unit forms sequence, loading.Reads source.path true unit forms ∧
      (∀ other met, loading.Follows (forms.map (.form unit)) [source.path] other met ↔
        other = sequence ∧ met = (filesRead (loader.load tree source name).events).reverse) ∧
      space.vars = Dict.insertAll ∅ (definitionsOf sequence) := by
  intro loading
  rw [filesRead_load]
  rw [load_value] at loaded
  obtain ⟨vars, succeeded, rfl⟩ := exceptMap_eq_ok_iff.1 loaded
  obtain ⟨unit, forms, sequence, reads, interned, follows_iff⟩ := Loading.load_follows succeeded
  exact ⟨unit, forms, sequence, reads, follows_iff, interned⟩

theorem name?_of_load {loader : Loader} {tree : FileTree} {source : SourceFile} {name : String}
    {space : Namespace} (loaded : (loader.load tree source name).value.1 = .ok space)
    {entry : String × Metadata} (member : entry ∈ space.vars.entries) :
    (Record.normalize entry.2).name? = some entry.1 := by
  obtain ⟨unit, forms, sequence, reads, follows_iff, interned⟩ := load_follows loaded
  have follows := (follows_iff sequence _).2 ⟨rfl, rfl⟩
  have found := Dict.mem_entries_iff.1 member
  rw [interned] at found
  obtain ⟨-, -, -, -, -, -, -, -, -, -, identity⟩ :=
    follows.identifies reads (List.Subset.refl _) found
  exact identity.name?_normalize

end Loader

/-- A load follows its file in one way only, which fixes the forms it interprets
and their order. Every var is what the last form that interns its name makes of
it, and carries its name, the namespace, and the file and start of that form,
over anything written under these keys. Resolving a file gives the records of all
vars but the private ones, in increasing order of the bytes of their names. -/
theorem vars_carry_their_definition (loader : Loader) (tree : FileTree) (source : SourceFile) :
    (∀ name space, (loader.load tree source name).value.1 = .ok space →
      let loading : Loading := ⟨tree, loader.features, source.root, name⟩
      let read := filesRead (loader.load tree source name).events
      ∃ unit forms sequence, loading.Reads source.path true unit forms ∧
        (∀ other met, loading.Follows (forms.map (.form unit)) [source.path] other met ↔
          other = sequence ∧ met = read.reverse) ∧
        space.vars = Dict.insertAll ∅ (definitionsOf sequence) ∧
        (∀ entry ∈ space.vars.entries, loading.Identifies read sequence entry.1 entry.2) ∧
        ∀ entry ∈ sequence, ∀ key ∈ entry.2.interned.map Prod.fst,
          ∃ metadata, (key, metadata) ∈ space.vars.entries) ∧
    ∀ found, (loader.resolve tree source).value.1 = .ok found → ∃ space, ∃ names : List String,
      (loader.load tree source found.name).value.1 = .ok space ∧
      (∀ record, record ∈ found.records ↔ ∃ entry ∈ space.vars.entries,
        entry.2.get? "private" ≠ some (.bool true) ∧ record = Record.normalize entry.2) ∧
      found.records.map Record.name? = names.map some ∧ names.Nodup ∧
      names.Pairwise fun earlier later => bytesOf earlier < bytesOf later := by
  refine ⟨?_, fun found resolved => ?_⟩
  · intro name space loaded loading read
    obtain ⟨unit, forms, sequence, reads, follows_iff, interned⟩ := Loader.load_follows loaded
    have follows := (follows_iff sequence _).2 ⟨rfl, rfl⟩
    refine ⟨unit, forms, sequence, reads, follows_iff, interned, ?_, ?_⟩
    · intro entry member
      have found := Dict.mem_entries_iff.1 member
      rw [interned] at found
      exact follows.identifies reads (fun path => List.mem_reverse.1) found
    · intro entry member key isInterned
      obtain ⟨metadata, found⟩ := get?_of_interned member isInterned
      rw [← interned] at found
      exact ⟨metadata, Dict.mem_entries_iff.2 found⟩
  obtain ⟨space, -, loaded, records⟩ := Loader.resolve_eq_ok_iff.1 resolved
  have ascending := space.publicEntries_ascending
  refine ⟨space, space.publicEntries.map Prod.fst, loaded, fun record => ?_, ?_,
    ascending.imp ?_, ascending⟩
  · rw [records, Namespace.publics_eq, List.map_map, List.mem_map]
    constructor
    · rintro ⟨entry, shown, rfl⟩
      obtain ⟨member, isShown⟩ := List.mem_filter.1 shown
      exact ⟨entry, member, isPublic_iff.1 isShown, rfl⟩
    · rintro ⟨entry, member, shown, rfl⟩
      exact ⟨entry, List.mem_filter.2 ⟨member, isPublic_iff.2 shown⟩, rfl⟩
  · rw [records, Namespace.publics_eq, List.map_map, List.map_map, List.map_map]
    refine List.map_congr_left fun entry shown => ?_
    exact Loader.name?_of_load loaded (List.mem_filter.1 shown).1
  · rintro earlier later before rfl
    exact List.lt_irrefl _ before

/-- A file that says of a var it defines where it would like it to be, after it
has loaded another with that var and a protocol. -/
def claimedTree : FileTree := .flat
  [("a.clj", "(ns a)\n(load \"b\")\n  (def ^\x7b:line 7 :file \"z\" :name q\x7d x 1)\n(defn- hidden [])\n"),
    ("b.clj", "(def x 0)\n(defprotocol P\n  (m [this]))\n")]

def statedIdentities (space : Namespace) : List (List (Option String)) :=
  space.vars.values.map fun metadata =>
    ["name", "ns", "file", "line", "column"].map fun key => (metadata.get? key).map Value.toText

/-- The method stands at its signature, the last definition of `x` wins with its
own place, and the private function has no record. -/
theorem claimed_place_is_overwritten :
    let loader := Loader.new ["clj"]
    let source : SourceFile := ⟨⟨"."⟩, ⟨"./a.clj"⟩⟩
    let loading : Loading := ⟨claimedTree, ["clj"], ⟨"."⟩, "a"⟩
    ∃ space found, (loader.load claimedTree source "a").value.1 = .ok space ∧
      (loader.resolve claimedTree source).value.1 = .ok found ∧
      statedIdentities space =
        [[some "P", some "a", some "b.clj", some "2", some "1"],
          [some "hidden", some "a", some "a.clj", some "4", some "1"],
          [some "m", some "a", some "b.clj", some "3", some "3"],
          [some "x", some "a", some "a.clj", some "3", some "3"]] ∧
      (∃ unit forms sequence, loading.Reads source.path true unit forms ∧
        loading.Follows (forms.map (.form unit)) [source.path] sequence [⟨"./b.clj"⟩, ⟨"./a.clj"⟩] ∧
        ∀ entry ∈ space.vars.entries,
          loading.Identifies [⟨"./a.clj"⟩, ⟨"./b.clj"⟩] sequence entry.1 entry.2) ∧
      found.records.map Record.name? = [some "P", some "m", some "x"] ∧
      ∃ names : List String, found.records.map Record.name? = names.map some ∧
        names.Pairwise fun earlier later => bytesOf earlier < bytesOf later := by
  intro loader source loading
  obtain ⟨reads, seen⟩ := loader.see_load claimedTree source "a" 20
    (fun space => (space.publics.map Record.normalize).map Record.name? :: statedIdentities space)
    [⟨"./a.clj"⟩, ⟨"./b.clj"⟩]
    (some [[some "P", some "m", some "x"],
      [some "P", some "a", some "b.clj", some "2", some "1"],
      [some "hidden", some "a", some "a.clj", some "4", some "1"],
      [some "m", some "a", some "b.clj", some "3", some "3"],
      [some "x", some "a", some "a.clj", some "3", some "3"]]) (by decide +kernel)
  obtain ⟨space, loaded, shown⟩ := exceptMap_eq_ok_iff.1 (eq_ok_of_toOption seen)
  obtain ⟨names, stated⟩ := List.cons.inj shown
  have declared : loader.declaredName claimedTree source = .ok "a" :=
    eq_ok_of_toOption (by decide +kernel)
  have resolved : (loader.resolve claimedTree source).value.1 =
      .ok ⟨"a", space.publics.map Record.normalize⟩ :=
    Loader.resolve_eq_ok_iff.2 ⟨space, declared, loaded, rfl⟩
  obtain ⟨identified, recorded⟩ := vars_carry_their_definition loader claimedTree source
  obtain ⟨unit, forms, sequence, readsFile, follows_iff, -, identifies, -⟩ := identified "a" space loaded
  obtain ⟨_, ordered, -, -, named, -, ascending⟩ := recorded _ resolved
  rw [reads] at identifies
  have follows := (follows_iff sequence _).2 ⟨rfl, (congrArg List.reverse reads).symm⟩
  exact ⟨space, _, loaded, resolved, stated, ⟨unit, forms, sequence, readsFile, follows, identifies⟩,
    names, ordered, named, ascending⟩

end VarDoc
