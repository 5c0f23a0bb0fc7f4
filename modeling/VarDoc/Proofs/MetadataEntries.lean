import VarDoc.Namespace.Definition
import VarDoc.Proofs.Dict

/-! Metadata as it is written. Of the entries under one keyword the last counts,
both where metadata is looked up in a form and where it is merged into that of a
var; what identifies the var wins over all of them. -/

set_option autoImplicit false

namespace VarDoc

namespace Form

def lastValue? (entries : List (Form × Form)) (key : String) : Option Form :=
  (entries.reverse.find? (isKeyword key)).map Prod.snd

theorem metadataGet?_eq (form : Form) (key : String) :
    form.metadataGet? key = lastValue? form.metadata key := rfl

theorem lastValue?_single (entry : Form × Form) (key : String) :
    lastValue? [entry] key = if entry.1.keyword? = some key then some entry.2 else none := by
  by_cases keyed : entry.1.keyword? = some key <;> simp [lastValue?, isKeyword, keyed]

theorem lastValue?_append (first second : List (Form × Form)) (key : String) :
    lastValue? (first ++ second) key = (lastValue? second key).or (lastValue? first key) := by
  simp [lastValue?, List.find?_append, Option.map_or]

theorem lastValue?_cons (entry : Form × Form) (entries : List (Form × Form)) (key : String) :
    lastValue? (entry :: entries) key =
      (lastValue? entries key).or (if entry.1.keyword? = some key then some entry.2 else none) := by
  rw [← lastValue?_single]
  exact lastValue?_append [entry] entries key

end Form

namespace Definition

def written? (entry : Form × Form) : Option (String × Value) :=
  entry.1.keyword?.map fun name => (name, entryValue name entry.2)

def writtenValue? (entries : List (Form × Form)) (key : String) : Option Value :=
  (Form.lastValue? entries key).map (entryValue key)

theorem mergeEntries_eq (metadata : Metadata) (entries : List (Form × Form)) :
    mergeEntries metadata entries = metadata.insertAll (entries.filterMap written?) := rfl

theorem lookupEntry_written (key : String) (entries : List (Form × Form)) :
    lookupEntry key (entries.filterMap written?) =
      (entries.find? (Form.isKeyword key)).map fun entry => entryValue key entry.2 := by
  induction entries with
  | nil => rfl
  | cons entry rest ih =>
    cases keyed : entry.1.keyword? with
    | none => simpa [written?, Form.isKeyword, keyed] using ih
    | some name =>
      have written : written? entry = some (name, entryValue name entry.2) := by
        simp [written?, keyed]
      rw [List.filterMap_cons_some written, lookupEntry_cons]
      by_cases same : name = key
      · subst same
        simp [Form.isKeyword, keyed]
      · simpa [Form.isKeyword, keyed, same] using ih

theorem get?_mergeEntries (metadata : Metadata) (entries : List (Form × Form)) (key : String) :
    (mergeEntries metadata entries).get? key =
      (writtenValue? entries key).or (metadata.get? key) := by
  rw [mergeEntries_eq, Dict.get?_insertAll, ← List.filterMap_reverse, lookupEntry_written]
  simp [writtenValue?, Form.lastValue?, Function.comp_def]

end Definition

namespace Site

variable (site : Site) (name : String) (span : Span)

def identity : Metadata :=
  let location := site.lines.locate site.text span.start
  .ofList [("name", .symbol name), ("ns", .namespaceRef site.space), ("file", .text site.file),
    ("line", .int (Int64.ofNat location.line)), ("column", .int (Int64.ofNat location.column))]

def identityKeys : List String := ["name", "ns", "file", "line", "column"]

theorem get?_identify (metadata : Metadata) (key : String) :
    (site.identify name span metadata).get? key =
      ((site.identity name span).get? key).or (metadata.get? key) := by
  rw [identify, identity, Dict.get?_insertAll, Dict.get?_ofList]

theorem get?_identify_of_ne (metadata : Metadata) {key : String} (other : key ∉ identityKeys) :
    (site.identify name span metadata).get? key = metadata.get? key := by
  have missing : (site.identity name span).get? key = none := by
    rw [identity, Dict.get?_ofList, lookupEntry_eq_none_iff]
    simpa [identityKeys, and_comm, and_left_comm, and_assoc] using other
  rw [get?_identify, missing, Option.none_or]

end Site

end VarDoc
