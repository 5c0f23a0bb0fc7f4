import Mathlib.Logic.Relation
import VarDoc.Project
import VarDoc.Proofs.Storable
import VarDoc.Proofs.UnplacedRecord

/-! What the options of a `defproject` form come to. Options are taken one after
the other into a draft of the descriptor. Each keyword has a part of the draft to
itself, and what an option writes there does not depend on what was there before;
license and source paths are settled between their two keywords only at the end.
So of the options with one keyword the last counts, in whatever order those with
other keywords stand. -/

set_option autoImplicit false

namespace VarDoc

namespace Project

@[ext]
structure Draft where
  description : Option String
  url : Option String
  license : Option Json
  licenses : Option Json
  scm : Option Json
  sourcePaths : List Path
  sourcePath : Option Path
  extra : Dict Json

namespace Draft

def blank : Draft := ⟨none, none, none, none, none, [], none, ∅⟩

def pathsOf (value : Form) : List Path :=
  (value.vector?.getD []).filterMap fun item => item.string?.map Path.mk

def pathOf? (value : Form) : Option Path := value.string?.map Path.mk

/-- Takes one option more. Of the fields that a keyword names only its own changes,
even where the value does not fit; what no field is named for goes to the rest, if
it has a JSON. -/
def take (draft : Draft) (key : String) (value : Form) : Draft where
  description := if key = "description" then value.string? else draft.description
  url := if key = "url" then value.string? else draft.url
  license := if key = "license" then jsonOf? value else draft.license
  licenses := if key = "licenses" then jsonOf? value else draft.licenses
  scm := if key = "scm" then jsonOf? value else draft.scm
  sourcePaths := if key = "source-paths" then pathsOf value else draft.sourcePaths
  sourcePath := if key = "source-path" then pathOf? value else draft.sourcePath
  extra :=
    if key ∈ namedOptions then draft.extra
    else (jsonOf? value).elim draft.extra (draft.extra.insert key)

/-- Takes the options in their order. A pair whose key is no keyword is passed over, and so
is what has no value. -/
def takeAll (draft : Draft) : List Form → Draft
  | key :: value :: rest => (key.keyword?.elim draft fun name => draft.take name value).takeAll rest
  | _ => draft

def finish (draft : Draft) (symbol : String) (version : Option Form) : Descriptor where
  name := some (splitName symbol).2
  group := some (splitName symbol).1
  version := version.map fun form => (Value.ofForm form).toText
  description := draft.description
  url := draft.url
  scm := draft.scm
  license := draft.license.or (draft.licenses.bind firstItem?)
  sourcePaths := if draft.sourcePaths = [] then [draft.sourcePath.getD standardSource] else draft.sourcePaths
  extra := draft.extra

end Draft

def lastOption? (name : String) : List Form → Option Form
  | key :: value :: rest =>
    (lastOption? name rest).or (if key.keyword? = some name then some value else none)
  | _ => none

theorem get?_options (name : String) (forms : List Form) :
    (Dict.ofList (options forms)).get? name = lastOption? name forms := by
  rw [Dict.get?_ofList]
  induction forms using options.induct with
  | case1 key value rest ih =>
    rw [options, lastOption?, ← ih, List.reverse_append, lookupEntry, List.find?_append, Option.map_or]
    congr 1
    cases key.keyword? with
    | none => rfl
    | some other => by_cases same : other = name <;> simp [same]
  | case2 forms short =>
    rw [options, lastOption?]
    · rfl
    · exact short
    · exact short

theorem exists_jsonOf? (value : Form) : ∃ json, jsonOf? value = some json := by
  obtain ⟨json, written⟩ := Value.toJson_of_isPlain _ (Value.ofForm_storable value).isPlain
  exact ⟨json, by rw [jsonOf?, written]; rfl⟩

theorem jsonOf?_unplaced (value : Form) : jsonOf? value.unplaced = jsonOf? value := by
  obtain ⟨json, written⟩ := Value.toJson_of_isPlain _ (Value.ofForm_storable value).isPlain
  rw [jsonOf?, Value.ofForm_unplaced, Value.toJson_unplaced, jsonOf?, written]
  rfl

theorem pathsOf_unplaced (value : Form) : Draft.pathsOf value.unplaced = Draft.pathsOf value := by
  rw [Draft.pathsOf, Form.vector?_unplaced, Draft.pathsOf]
  cases value.vector? with
  | none => rfl
  | some items =>
    simp only [Option.map_some, Option.getD_some, List.filterMap_map, Function.comp_def,
      Form.string?_unplaced]

theorem pathOf?_unplaced (value : Form) : Draft.pathOf? value.unplaced = Draft.pathOf? value := by
  rw [Draft.pathOf?, Form.string?_unplaced, Draft.pathOf?]

namespace Draft

/-- A part of the draft that belongs to one keyword: an option with this keyword puts there
what its value reads as, and no other changes it. Where the value stands makes no difference. -/
structure Part (α : Type) (name : String) where
  get : Draft → α
  reads : Form → α
  get_take : ∀ draft key value, get (draft.take key value) = if key = name then reads value else get draft
  reads_unplaced : ∀ value, reads value.unplaced = reads value

variable {α : Type} {name : String}

/-- In the end a part holds what the last option with its keyword reads as. -/
theorem Part.get_takeAll (part : Part α name) (draft : Draft) (forms : List Form) :
    part.get (draft.takeAll forms) = ((lastOption? name forms).map part.reads).getD (part.get draft) := by
  induction forms using options.induct generalizing draft with
  | case1 key value rest ih =>
    rw [takeAll, ih, lastOption?]
    cases lastOption? name rest with
    | some later => rfl
    | none =>
      cases key.keyword? with
      | none => rfl
      | some other =>
        rw [Option.elim_some, part.get_take]
        by_cases same : other = name <;> simp [same]
  | case2 forms short =>
    rw [takeAll, lastOption?]
    · rfl
    · exact short
    · exact short

theorem Part.get_eq_of_last (part : Part α name) (draft : Draft) {forms others : List Form}
    (same : (lastOption? name others).map Form.unplaced = (lastOption? name forms).map Form.unplaced) :
    part.get (draft.takeAll others) = part.get (draft.takeAll forms) := by
  have blind (value? : Option Form) : value?.map part.reads = (value?.map Form.unplaced).map part.reads := by
    cases value? with
    | none => rfl
    | some value => exact congrArg some (part.reads_unplaced value).symm
  rw [part.get_takeAll, part.get_takeAll, blind, same, ← blind]

namespace Part

def description : Part (Option String) "description" :=
  ⟨Draft.description, Form.string?, fun _ _ _ => rfl, Form.string?_unplaced⟩

def url : Part (Option String) "url" :=
  ⟨Draft.url, Form.string?, fun _ _ _ => rfl, Form.string?_unplaced⟩

def license : Part (Option Json) "license" :=
  ⟨Draft.license, jsonOf?, fun _ _ _ => rfl, jsonOf?_unplaced⟩

def licenses : Part (Option Json) "licenses" :=
  ⟨Draft.licenses, jsonOf?, fun _ _ _ => rfl, jsonOf?_unplaced⟩

def scm : Part (Option Json) "scm" :=
  ⟨Draft.scm, jsonOf?, fun _ _ _ => rfl, jsonOf?_unplaced⟩

def sourcePaths : Part (List Path) "source-paths" :=
  ⟨Draft.sourcePaths, pathsOf, fun _ _ _ => rfl, pathsOf_unplaced⟩

def sourcePath : Part (Option Path) "source-path" :=
  ⟨Draft.sourcePath, pathOf?, fun _ _ _ => rfl, pathOf?_unplaced⟩

end Part

theorem extra_take {name : String} (unnamed : name ∉ namedOptions) (draft : Draft) (key : String)
    (value : Form) : (draft.take key value).extra.get? name =
      if key = name then jsonOf? value else draft.extra.get? name := by
  obtain ⟨json, written⟩ := exists_jsonOf? value
  unfold take
  by_cases named : key ∈ namedOptions
  · have different : key ≠ name := fun same => unnamed (same ▸ named)
    rw [if_pos named, if_neg different]
  · rw [if_neg named, written, Option.elim_some, Dict.get?_insert]

def Part.extra {name : String} (unnamed : name ∉ namedOptions) : Part (Option Json) name :=
  ⟨fun draft => draft.extra.get? name, jsonOf?, extra_take unnamed, jsonOf?_unplaced⟩

theorem extra_named {name : String} (named : name ∈ namedOptions) (draft : Draft) (forms : List Form) :
    (draft.takeAll forms).extra.get? name = draft.extra.get? name := by
  induction forms using options.induct generalizing draft with
  | case1 key value rest ih =>
    rw [takeAll, ih]
    cases key.keyword? with
    | none => rfl
    | some other =>
      rw [Option.elim_some, take]
      by_cases alsoNamed : other ∈ namedOptions
      · rw [if_pos alsoNamed]
      · have different : other ≠ name := fun same => alsoNamed (same ▸ named)
        obtain ⟨json, written⟩ := exists_jsonOf? value
        rw [if_neg alsoNamed, written, Option.elim_some, Dict.get?_insert, if_neg different]
  | case2 forms short =>
    rw [takeAll]
    exact short

/-- Options with the same last values come to the same draft. -/
theorem takeAll_eq_of_last {forms others : List Form} (same : ∀ name,
      (lastOption? name others).map Form.unplaced = (lastOption? name forms).map Form.unplaced) :
    blank.takeAll others = blank.takeAll forms := by
  ext1
  · exact Part.description.get_eq_of_last blank (same _)
  · exact Part.url.get_eq_of_last blank (same _)
  · exact Part.license.get_eq_of_last blank (same _)
  · exact Part.licenses.get_eq_of_last blank (same _)
  · exact Part.scm.get_eq_of_last blank (same _)
  · exact Part.sourcePaths.get_eq_of_last blank (same _)
  · exact Part.sourcePath.get_eq_of_last blank (same _)
  · refine Dict.eq_of_get? fun name => ?_
    by_cases named : name ∈ namedOptions
    · rw [extra_named named, extra_named named]
    · exact (Part.extra named).get_eq_of_last blank (same name)

theorem extra_takeAll (forms : List Form) :
    (blank.takeAll forms).extra = Project.extra (Dict.ofList (options forms)) := by
  refine Dict.eq_of_get? fun name => ?_
  rw [Project.extra, Dict.get?_filterMap, get?_options]
  by_cases named : name ∈ namedOptions
  · rw [extra_named named]
    simp only [List.contains_iff_mem.2 named, if_true, Option.bind_fun_none]
    rfl
  · have settled := (Part.extra named).get_takeAll blank forms
    simp only [Part.extra] at settled
    rw [settled]
    simp only [List.contains_iff_mem, named, if_false]
    cases lastOption? name forms <;> rfl

theorem license?_eq (given : Dict Form) : license? given =
    ((given.get? "license").bind jsonOf?).or (((given.get? "licenses").bind jsonOf?).bind firstItem?) := by
  unfold license?
  cases (given.get? "license").bind jsonOf? <;> rfl

theorem sourcePaths_eq (given : Dict Form) : Project.sourcePaths given =
    if sourcePathList given = [] then [((given.get? "source-path").bind pathOf?).getD standardSource]
    else sourcePathList given := by
  unfold Project.sourcePaths
  cases sourcePathList given with
  | nil => cases given.get? "source-path" <;> rfl
  | cons => rfl

theorem describe_eq_finish (symbol : String) (version : Option Form) (forms : List Form) :
    describe symbol version (Dict.ofList (options forms)) = (blank.takeAll forms).finish symbol version := by
  have settled {α : Type} {name : String} (part : Part (Option α) name) (empty : part.get blank = none) :
      part.get (blank.takeAll forms) = ((Dict.ofList (options forms)).get? name).bind part.reads := by
    rw [part.get_takeAll, get?_options, empty]
    cases lastOption? name forms <;> rfl
  have sourcePaths : (blank.takeAll forms).sourcePaths = sourcePathList (Dict.ofList (options forms)) := by
    rw [sourcePathList, get?_options]
    refine (Part.sourcePaths.get_takeAll blank forms).trans ?_
    cases lastOption? "source-paths" forms <;> rfl
  have license : (blank.takeAll forms).license = _ := settled Part.license rfl
  have licenses : (blank.takeAll forms).licenses = _ := settled Part.licenses rfl
  have sourcePath : (blank.takeAll forms).sourcePath = _ := settled Part.sourcePath rfl
  rw [describe, finish, license?_eq, sourcePaths_eq, extra_takeAll, sourcePaths, license, licenses,
    sourcePath]
  congr 1
  · exact (settled Part.url rfl).symm
  · exact (settled Part.description rfl).symm
  · exact (settled Part.scm rfl).symm

end Draft

/-- One change of the options that leaves the last value of every keyword as it is. A
key stands where an even number of forms stands before it. -/
inductive Rearranges : List Form → List Form → Prop where
  | swap {front back : List Form} {key value key' value' : Form} {name name' : String}
    (even : front.length % 2 = 0) (named : key.keyword? = some name)
    (named' : key'.keyword? = some name') (different : name ≠ name') :
    Rearranges (front ++ key :: value :: key' :: value' :: back)
      (front ++ key' :: value' :: key :: value :: back)
  | overwritten {front middle back : List Form} {key value key' value' : Form} {name : String}
    (even : front.length % 2 = 0) (evenMiddle : middle.length % 2 = 0)
    (named : key.keyword? = some name) (again : key'.keyword? = some name) :
    Rearranges (front ++ key :: value :: (middle ++ key' :: value' :: back))
      (front ++ (middle ++ key' :: value' :: back))
  | unkeyed {front back : List Form} {key value : Form} (even : front.length % 2 = 0)
    (unnamed : key.keyword? = none) : Rearranges (front ++ key :: value :: back) (front ++ back)
  | unpaired {front : List Form} {last : Form} (even : front.length % 2 = 0) :
    Rearranges (front ++ [last]) front

theorem lastOption?_append {front : List Form} (even : front.length % 2 = 0) (name : String)
    (back : List Form) :
    lastOption? name (front ++ back) = (lastOption? name back).or (lastOption? name front) := by
  induction front using options.induct with
  | case1 key value rest ih =>
    have evenRest : rest.length % 2 = 0 := by
      rw [List.length_cons, List.length_cons] at even
      omega
    rw [List.cons_append, List.cons_append, lastOption?, lastOption?, ih evenRest, Option.or_assoc]
  | case2 front short =>
    cases front with
    | nil => exact Option.or_none.symm
    | cons key rest =>
      cases rest with
      | nil => cases even
      | cons value rest => exact (short key value rest rfl).elim

theorem Rearranges.lastOption?_eq {forms others : List Form} (rearranges : Rearranges forms others)
    (name : String) : lastOption? name others = lastOption? name forms := by
  cases rearranges with
  | @swap front back key value key' value' first second even named named' different =>
    rw [lastOption?_append even, lastOption?_append even]
    congr 1
    simp only [lastOption?, named, named', Option.some.injEq, Option.or_assoc]
    congr 1
    by_cases same : first = name
    · have other : second ≠ name := fun also => different (same.trans also.symm)
      simp [same, other]
    · simp [same]
  | @overwritten front middle back key value key' value' first even evenMiddle named again =>
    rw [lastOption?_append even, lastOption?_append even]
    congr 1
    rw [lastOption?, named]
    by_cases same : first = name
    · rw [lastOption?_append evenMiddle, lastOption?, again, if_pos (congrArg some same)]
      cases lastOption? name back <;> rfl
    · rw [if_neg (fun also => same (Option.some.inj also)), Option.or_none]
  | unkeyed even unnamed =>
    rw [lastOption?_append even, lastOption?_append even, lastOption?, unnamed]
    simp
  | unpaired even => rw [lastOption?_append even]; rfl

theorem lastOption?_of_rearranged {forms others : List Form}
    (rearranged : Relation.EqvGen Rearranges forms others) (name : String) :
    lastOption? name others = lastOption? name forms := by
  induction rearranged with
  | rel _ _ rearranges => exact rearranges.lastOption?_eq name
  | refl => rfl
  | symm _ _ _ ih => exact ih.symm
  | trans _ _ _ _ _ first second => exact second.trans first

structure Lists (form : Form) (symbol : String) (version : Form) (options : List Form) : Prop where
  items : ∃ head name, form.list? = some (head :: name :: version :: options) ∧
    head.symbol? = some "defproject" ∧ name.symbol? = some symbol

theorem Lists.ofForm?_eq {form version : Form} {symbol : String} {options : List Form}
    (lists : Lists form symbol version options) :
    ofForm? form = some ((Draft.blank.takeAll options).finish symbol (some version)) := by
  obtain ⟨head, name, items, called, named⟩ := lists.items
  have call : form.isCallTo "defproject" = true := by
    rw [Form.isCallTo, Form.head?, items]
    simp [called]
  rw [← Draft.describe_eq_finish]
  simp [ofForm?, call, items, named, optionForms]

/-- The descriptor of a project is settled by the name, the version and, for each keyword,
the last option with it. Options that agree in these, wherever they stand, describe the same
project; so do options that are reordered, or lose what is overwritten, what has no keyword
or what has no value. -/
theorem options_settled_by_last_values {form version : Form} {symbol : String} {options : List Form}
    (lists : Lists form symbol version options) :
    ∃ descriptor, ofForm? form = some descriptor ∧
      descriptor = (Draft.blank.takeAll options).finish symbol (some version) ∧
      ∀ other version' others, Lists other symbol version' others →
        version'.unplaced = version.unplaced →
        ((∀ name, (lastOption? name others).map Form.unplaced =
            (lastOption? name options).map Form.unplaced) → ofForm? other = some descriptor) ∧
        (Relation.EqvGen Rearranges options others → ofForm? other = some descriptor) := by
  refine ⟨_, lists.ofForm?_eq, rfl, fun other version' others again sameVersion => ?_⟩
  have settled (same : ∀ name,
      (lastOption? name others).map Form.unplaced = (lastOption? name options).map Form.unplaced) :
      ofForm? other = some ((Draft.blank.takeAll options).finish symbol (some version)) := by
    have text : (Value.ofForm version').toText = (Value.ofForm version).toText := by
      rw [← Value.toText_unplaced, ← Value.ofForm_unplaced, sameVersion, Value.ofForm_unplaced,
        Value.toText_unplaced]
    rw [again.ofForm?_eq, Draft.takeAll_eq_of_last same, Draft.finish, Draft.finish, Option.map_some,
      Option.map_some, text]
  refine ⟨settled, fun rearranged => settled fun name => ?_⟩
  rw [lastOption?_of_rearranged rearranged]

theorem project_with_options_moved_and_dropped :
    let text (content : String) : Form := .atom (.string content) ⟨0, 0⟩ []
    let key (name : String) : Form := .atom (.keyword name) ⟨0, 0⟩ []
    let symbol (name : String) : Form := .atom (.symbol name) ⟨0, 0⟩ []
    let project (options : List Form) : Form :=
      .group .list (symbol "defproject" :: symbol "g/a" :: text "1" :: options) ⟨0, 0⟩ []
    let licenses : Form := .group .vector [text "MIT"] ⟨0, 0⟩ []
    ∃ descriptor, ofForm? (project [key "licenses", licenses, key "x", text "old", key "source-path",
        text "lib", text "5", text "6", key "x", text "new", key "odd"]) = some descriptor ∧
      ofForm? (project [key "source-path", text "lib", key "x", text "new", key "licenses", licenses]) =
        some descriptor ∧
      descriptor.license = some (.string "MIT") ∧ descriptor.sourcePaths = [⟨"lib"⟩] := by
  intro text key symbol project licenses
  have lists (options : List Form) : Lists (project options) "g/a" (text "1") options :=
    ⟨symbol "defproject", symbol "g/a", rfl, rfl, rfl⟩
  obtain ⟨descriptor, described, comes, alike⟩ := options_settled_by_last_values
    (lists [key "licenses", licenses, key "x", text "old", key "source-path", text "lib", text "5",
      text "6", key "x", text "new", key "odd"])
  refine ⟨descriptor, described, (alike _ _ _ (lists _) rfl).2 ?_, ?_, ?_⟩
  · refine .trans _ _ _ (.rel _ _ (@Rearranges.unpaired [key "licenses", licenses, key "x", text "old",
      key "source-path", text "lib", text "5", text "6", key "x", text "new"] (key "odd") (by simp))) ?_
    refine .trans _ _ _ (.rel _ _ (@Rearranges.unkeyed [key "licenses", licenses, key "x", text "old",
      key "source-path", text "lib"] [key "x", text "new"] (text "5") (text "6") (by simp) rfl)) ?_
    refine .trans _ _ _ (.rel _ _ (@Rearranges.overwritten [key "licenses", licenses]
      [key "source-path", text "lib"] [] (key "x") (text "old") (key "x") (text "new") "x"
      (by simp) (by simp) rfl rfl)) ?_
    refine .trans _ _ _ (.rel _ _ (@Rearranges.swap [] [key "x", text "new"] (key "licenses") licenses
      (key "source-path") (text "lib") _ _ (by simp) rfl rfl (by decide))) ?_
    exact .rel _ _ (@Rearranges.swap [key "source-path", text "lib"] [] (key "licenses") licenses
      (key "x") (text "new") _ _ (by simp) rfl rfl (by decide))
  · rw [comes]; rfl
  · rw [comes]; rfl

end Project

end VarDoc
