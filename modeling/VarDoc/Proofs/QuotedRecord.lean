import VarDoc.Proofs.LoadingSteps
import VarDoc.Proofs.QuotedMetadata
import VarDoc.Proofs.StorableDocument
import VarDoc.Proofs.UnplacedRecord

/-! Records of quoted metadata. The mark and the call that it stands for are recorded
apart as soon as the entry counts: what is behind the mark is recorded without it,
and the call is recorded as code. -/

set_option autoImplicit false

namespace VarDoc

variable {quotation : Quotation} {key : String}

theorem AlikeMetadata.unlocated {left right : Metadata} (alike : AlikeMetadata quotation key left right) :
    AlikeMetadata quotation key left.unlocated right.unlocated where
  elsewhere other different := by
    unfold Metadata.unlocated
    rw [Dict.get?_without, Dict.get?_without, alike.elsewhere other different]
  there := by
    unfold Metadata.unlocated
    rw [Dict.get?_without, Dict.get?_without]
    split
    · exact .inl rfl
    · exact alike.there

namespace AlikeDefinition

variable {definition other : Definition} (alike : AlikeDefinition quotation key definition other)
include alike

/-- Either the entry does not count, or each var has its own spelling of it. -/
theorem eq_or_each : definition = other ∨
    definition.2.get? key = some (Definition.entryValue key quotation.sugar) ∧
      other.2.get? key = some (Definition.entryValue key quotation.call) := by
  rcases alike.metadata.there with same | each
  · refine .inl (Prod.ext alike.name (Dict.eq_of_get? fun name => ?_))
    by_cases there : name = key
    · rw [there, same]
    · exact alike.metadata.elsewhere name there
  · exact .inr each

theorem normalize_eq_of_dropped (dropped : key ∈ Record.droppedKeys) :
    Record.normalize definition.2 = Record.normalize other.2 := by
  have hidden (metadata : Metadata) : (Record.normalize metadata).get? key = none := by
    rw [Record.get?_normalize]
    cases metadata.get? key with
    | none => rfl
    | some value => exact Record.normalizeField_dropped dropped value
  refine congrArg Record.mk (Dict.eq_of_get? fun name => ?_)
  change (Record.normalize definition.2).get? name = (Record.normalize other.2).get? name
  by_cases there : name = key
  · rw [there, hidden, hidden]
  · rw [Record.get?_normalize, Record.get?_normalize, alike.metadata.elsewhere name there]

theorem toJson_eq_iff {json : Json} (made : (Record.normalize other.2).toJson = .ok json) :
    (Record.normalize definition.2).toJson = .ok json ↔
      definition = other ∨ key ∈ Record.droppedKeys := by
  constructor
  · intro same
    rcases alike.eq_or_each with equal | ⟨sugar, call⟩
    · exact .inl equal
    · by_contra counts
      apply quotation.toJson_normalizeField_ne fun dropped => counts (.inr dropped)
      have kept := Record.toJson_get? same made key
      rwa [Record.get?_normalize, Record.get?_normalize, sugar, call] at kept
  · rintro (rfl | dropped)
    · exact made
    · rw [alike.normalize_eq_of_dropped dropped, made]

end AlikeDefinition

section Recording

variable (quotation key)

structure RecordedApart (definition other : Definition) : Prop where
  alike : AlikeDefinition quotation key definition.placeless other.placeless
  /-- The records are the same only where the entry does not count. -/
  json : ∃ json otherJson, (Record.normalize definition.2).toJson = .ok json ∧
    (Record.normalize other.2).toJson = .ok otherJson ∧
    (json.without placeKeys = otherJson.without placeKeys ↔
      definition.placeless = other.placeless ∨ key ∈ Record.droppedKeys)
  /-- Where it counts, the call is recorded as the code that it is. -/
  call : definition.placeless ≠ other.placeless → key ∉ Record.droppedKeys →
    ((Record.normalize other.2).get? key).map Value.toJson = some (.ok (quotation.keptCall key))
  /-- Argument lists behind a mark are printed one by one. -/
  arglists : definition.placeless ≠ other.placeless → key = "arglists" →
    (Record.normalize other.2).arglists = ["quote", quotation.inner.render] ∧
      ∀ items, quotation.inner.list?.or quotation.inner.vector? = some items →
        (Record.normalize definition.2).arglists = items.map Form.render

def RespelledForm (form other : Form) : Prop :=
  ∃ head arguments others span metadata,
    form.unplaced = .group .list (head :: arguments) span metadata ∧
    other.unplaced = .group .list (head :: others) span metadata ∧
    List.Forall₂ (Respelled quotation key) arguments others

end Recording

theorem Record.arglists_of_placeless {metadata : Metadata} {value : Value}
    (found : Dict.get? metadata.placeless "arglists" = some value) :
    (Record.normalize metadata).arglists = Record.printedArglists value := by
  obtain ⟨placed, isPlaced, rfl⟩ := Metadata.get?_of_placeless found
  rw [Record.arglists_normalize isPlaced, Record.printedArglists_unplaced]

theorem AlikeDefinition.recordedApart {definition other : Definition}
    (alike : AlikeDefinition quotation key definition.placeless other.placeless)
    (storable : StorableMetadata definition.2) (storableOther : StorableMetadata other.2) :
    RecordedApart quotation key definition other where
  alike := alike
  json := by
    obtain ⟨json, made⟩ := Record.toJson_of_storable storable
    obtain ⟨otherJson, madeOther⟩ := Record.toJson_of_storable storableOther
    refine ⟨json, otherJson, made, madeOther, ?_⟩
    have placeless : (Record.normalize definition.placeless.2).toJson = .ok (json.without placeKeys) :=
      Record.toJson_normalize made
    rw [← alike.toJson_eq_iff (Record.toJson_normalize madeOther), placeless, Except.ok.injEq]
  call differ kept := by
    obtain ⟨-, call⟩ := alike.eq_or_each.resolve_left differ
    obtain ⟨placed, found, unplaced⟩ := Metadata.get?_of_placeless call
    have recorded := quotation.toJson_call kept
    rw [← unplaced, Record.normalizeField_unplaced, Option.map_map] at recorded
    obtain ⟨value, normalized, made⟩ := Option.map_eq_some_iff.1 recorded
    rw [Record.get?_normalize, found, Option.bind_some, normalized, Option.map_some,
      Value.toJson_of_unplaced made]
  arglists differ isArglists := by
    subst isArglists
    obtain ⟨sugar, call⟩ := alike.eq_or_each.resolve_left differ
    exact ⟨(Record.arglists_of_placeless call).trans quotation.printedArglists_call, fun items listed =>
      (Record.arglists_of_placeless sugar).trans (quotation.printedArglists_listed listed)⟩

namespace Definition

/-- Whichever way quotes are written in its metadata, a definition makes the same
vars, alike but for the entries in question. These are recorded apart wherever
records keep them: the mark is taken off, the call is kept as code. -/
theorem quote_call_recorded_as_code {form other : Form} (respelled : RespelledForm quotation key form other)
    {site otherSite : Site} (space : site.space = otherSite.space) (file : site.file = otherSite.file) :
    List.Forall₂ (RecordedApart quotation key) (ofForm site form) (ofForm otherSite other) := by
  obtain ⟨head, arguments, others, span, metadata, isForm, isOther, alike⟩ := respelled
  have sites : site.unplaced = otherSite.unplaced := by rw [Site.unplaced, Site.unplaced, space, file]
  have placeless : List.Forall₂ (AlikeDefinition quotation key) ((ofForm site form).map placeless)
      ((ofForm otherSite other).map placeless) := by
    change List.Forall₂ _ ((ofForm site form).map (unlocated ∘ unplaced))
      ((ofForm otherSite other).map (unlocated ∘ unplaced))
    rw [← ofForm_unplaced, ← ofForm_unplaced, ← sites, isForm, isOther, List.forall₂_map_left_iff,
      List.forall₂_map_right_iff]
    exact (ofForm_respelled alike site.unplaced head span metadata).imp fun _ _ alike =>
      ⟨alike.name, alike.metadata.unlocated⟩
  rw [List.forall₂_map_left_iff, List.forall₂_map_right_iff] at placeless
  have storable := (List.forall₂_and_left _ _).2 ⟨ofForm_storable site form, placeless⟩
  have storableOther := (List.forall₂_and_left _ _).2 ⟨ofForm_storable otherSite other, storable.flip⟩
  exact storableOther.flip.imp fun _ _ both => both.2.2.recordedApart both.2.1 both.1

def markedArglists : Form :=
  .group .list [.atom (.symbol "defn") ⟨1, 5⟩ [], .atom (.symbol "f") ⟨6, 7⟩ [],
    .map [(.atom (.keyword "arglists") ⟨9, 18⟩ [], .marked (.sigil .quote)
      (.group .list [.group .vector [.atom (.symbol "x") ⟨22, 23⟩ []] ⟨21, 24⟩ []] ⟨20, 25⟩ []) ⟨19, 25⟩ [])]
      ⟨8, 26⟩ [], .group .vector [.atom (.symbol "y") ⟨28, 29⟩ []] ⟨27, 30⟩ []] ⟨0, 31⟩ []

def calledArglists : Form :=
  .group .list [.atom (.symbol "defn") ⟨1, 5⟩ [], .atom (.symbol "f") ⟨6, 7⟩ [],
    .map [(.atom (.keyword "arglists") ⟨9, 18⟩ [], .group .list [.atom (.symbol "quote") ⟨20, 25⟩ [],
      .group .list [.group .vector [.atom (.symbol "x") ⟨28, 29⟩ []] ⟨27, 30⟩ []] ⟨26, 31⟩ []] ⟨19, 32⟩ [])]
      ⟨8, 33⟩ [], .group .vector [.atom (.symbol "y") ⟨35, 36⟩ []] ⟨34, 37⟩ []] ⟨0, 38⟩ []

def quotedArglists : Quotation :=
  ⟨.group .list [.group .vector [.atom (.symbol "x") .nowhere []] .nowhere []] .nowhere [],
    .nowhere, [], .nowhere, [], .nowhere, []⟩

theorem marked_and_called_arglists :
    RespelledForm quotedArglists "arglists" markedArglists calledArglists ∧
      List.Forall₂ (RecordedApart quotedArglists "arglists")
        (ofForm (Site.ofText "a" "a.clj" "(defn f \x7b:arglists '([x])\x7d [y])") markedArglists)
        (ofForm (Site.ofText "a" "a.clj" "(defn f \x7b:arglists (quote ([x]))\x7d [y])") calledArglists) := by
  have respelled : RespelledForm quotedArglists "arglists" markedArglists calledArglists :=
    ⟨_, _, _, _, _, rfl, rfl, .cons (.same _) (.cons (.attributes (.cons (.inr ⟨rfl, rfl, rfl, rfl⟩) .nil))
      (.cons (.same _) .nil))⟩
  exact ⟨respelled, quote_call_recorded_as_code respelled rfl rfl⟩

/-- One file with the two spellings of one entry. -/
def quotingTree : FileTree where
  root := .directory [("a.clj", .file
    "(ns a)\n(defn f \x7b:arglists '([x])\x7d [y])\n(defn g \x7b:arglists (quote ([x]))\x7d [y])\n".toUTF8)]
  workingDirectory := []

/-- The call is taken for two argument lists, the word and what is quoted. -/
theorem quote_call_is_not_unquoted :
    (((Loader.new ["clj"]).load quotingTree ⟨⟨""⟩, ⟨"a.clj"⟩⟩ "a").value.1.map fun space =>
      space.publics.map fun metadata => (Record.normalize metadata).arglists).toOption =
      some [["[x]"], ["quote", "([x])"]] :=
  ((Loader.new ["clj"]).see_load quotingTree ⟨⟨""⟩, ⟨"a.clj"⟩⟩ "a" 20
    (fun space => space.publics.map fun metadata => (Record.normalize metadata).arglists)
    [⟨"a.clj"⟩] (some [["[x]"], ["quote", "([x])"]]) (by decide +kernel)).2

end Definition

end VarDoc
