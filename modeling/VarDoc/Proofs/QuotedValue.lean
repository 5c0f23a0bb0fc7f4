import VarDoc.Namespace.Definition
import VarDoc.Proofs.NormalizedRecord
import VarDoc.Proofs.Printing

/-! Quoted values. `'x` denotes the data of `x`, or is `x` as code; a call of `quote`
stays code, with the quote in it. Both print alike, so what `'x` denotes is shorter
than the text of the call, and a record never keeps the same of the two. -/

set_option autoImplicit false

namespace VarDoc

theorem length_le_intercalate {separator text : String} {texts : List String} (member : text ∈ texts) :
    text.length ≤ (separator.intercalate texts).length := by
  rw [← String.length_toList, ← String.length_toList, String.toList_intercalate]
  have found : text.toList ∈ texts.map String.toList := List.mem_map_of_mem member
  generalize texts.map String.toList = lists at found ⊢
  cases lists with
  | nil => cases found
  | cons first rest =>
    rw [intercalate_cons, List.length_append]
    rcases List.mem_cons.1 found with same | later
    · exact same ▸ Nat.le_add_right _ _
    · have spaced : separator.toList ++ text.toList ∈ rest.map (separator.toList ++ ·) :=
        List.mem_map_of_mem later
      have part := (List.sublist_flatten_of_mem spaced).length_le
      rw [List.length_append, ← List.flatMap_def] at part
      omega

namespace Form

theorem length_render_lt {shape : Shape} {items : List Form} {item : Form} (member : item ∈ items)
    (span : Span) (metadata : List (Form × Form)) :
    item.render.length < (Form.group shape items span metadata).render.length := by
  have inside : item.render.length ≤ (" ".intercalate (renderAll items)).length := by
    apply length_le_intercalate
    rw [renderAll_eq]
    exact List.mem_map_of_mem member
  have opening : 0 < shape.openText.length := by cases shape <;> decide
  rw [render, String.length_append, String.length_append]
  omega

theorem length_le_render_marked (mark : Mark) (inner : Form) (span : Span)
    (metadata : List (Form × Form)) :
    inner.render.length ≤ (Form.marked mark inner span metadata).render.length := by
  rw [render, String.length_append, String.length_append]
  omega

end Form

theorem length_escaped (text : List Char) : text.length ≤ (escaped text).length := by
  induction text with
  | nil => exact Nat.le_refl _
  | cons c rest ih =>
    have some : 0 < (escapeCharacter c).toList.length := by
      rcases escapeCharacter_cases c with ⟨plain, -, -⟩ | ⟨letter, pair, -⟩
      · rw [plain]
        exact Nat.zero_lt_succ _
      · rw [pair]
        exact Nat.zero_lt_succ _
    rw [escaped, List.flatMap_cons, List.length_append, List.length_cons]
    rw [escaped] at ih
    omega

namespace Value

/-- The value is a number or a constant, or as text it is no longer than the given
size. -/
inductive Within (size : Nat) : Value → Prop where
  | nil : Within size .nil
  | bool (value : Bool) : Within size (.bool value)
  | int (value : Int64) : Within size (.int value)
  | float (value : Float) : Within size (.float value)
  | text {content : String} (short : content.length ≤ size) : Within size (.text content)
  | keyword {name : String} (short : name.length < size) : Within size (.keyword name)
  | symbol {name : String} (short : name.length ≤ size) : Within size (.symbol name)
  | code {form : Form} (short : form.render.length ≤ size) : Within size (.code form)

theorem Within.mono {size larger : Nat} {value : Value} (within : value.Within size)
    (below : size ≤ larger) : value.Within larger := by
  cases within with
  | nil => exact .nil
  | bool value => exact .bool value
  | int value => exact .int value
  | float value => exact .float value
  | text short => exact .text (Nat.le_trans short below)
  | keyword short => exact .keyword (Nat.lt_of_lt_of_le short below)
  | symbol short => exact .symbol (Nat.le_trans short below)
  | code short => exact .code (Nat.le_trans short below)

theorem ofForm_atom_within (leaf : Atom) (span : Span) (metadata : List (Form × Form)) :
    (ofForm (.atom leaf span metadata)).Within leaf.render.length := by
  cases leaf with
  | nil => exact .nil
  | bool value => exact .bool value
  | number written =>
    rw [ofForm]
    cases made : ofNumber? written with
    | none => exact .code (Nat.le_refl _)
    | some value =>
      rcases ofNumber?_cases made with ⟨number, rfl⟩ | ⟨number, -, rfl⟩
      · exact .int number
      · exact .float number
  | string content =>
    have rendered : (Atom.string content).render.toList = '"' :: (escaped content.toList ++ ['"']) := by
      simp [Atom.render, escaped, List.flatMap_map]
    have longer := length_escaped content.toList
    apply Within.text
    rw [← String.length_toList, ← String.length_toList, rendered, List.length_cons, List.length_append]
    omega
  | keyword name =>
    apply Within.keyword
    rw [Atom.render, String.length_append]
    exact Nat.lt_add_of_pos_left (by decide)
  | symbol name => exact .symbol (Nat.le_refl _)
  | character | regex | symbolicValue => exact .code (Nat.le_refl _)

theorem ofForm_marked {mark : Mark} (other : mark ≠ .sigil .quote) (inner : Form) (span : Span)
    (metadata : List (Form × Form)) :
    ofForm (.marked mark inner span metadata) = .code (.marked mark inner span metadata) := by
  cases mark with
  | tag => rw [ofForm]; simp
  | sigil sigil =>
    cases sigil with
    | quote => contradiction
    | _ => rw [ofForm]; simp

theorem ofForm_quoted_within : ∀ (inner : Form) (span : Span) (metadata : List (Form × Form)),
    (ofForm (.marked (.sigil .quote) inner span metadata)).Within inner.render.length
  | .atom leaf span metadata, _, _ => by
    rw [ofForm]
    exact ofForm_atom_within leaf span metadata
  | .group shape items span metadata, _, _ => by
    rw [ofForm]
    exact .code (Nat.le_refl _)
  | .map entries span metadata, _, _ => by
    rw [ofForm]
    exact .code (Nat.le_refl _)
  | .marked mark inmost span metadata, _, _ => by
    rw [ofForm]
    by_cases quotes : mark = .sigil .quote
    · subst quotes
      exact (ofForm_quoted_within inmost span metadata).mono
        (Form.length_le_render_marked _ inmost span metadata)
    · rw [ofForm_marked quotes]
      exact .code (Nat.le_refl _)

variable {size : Nat} {value : Value}

theorem Within.toJson_ne (within : value.Within size) {text : String} (long : size < text.length) :
    value.toJson ≠ .ok (.string text) := by
  have shorter {content : String} (short : content.length ≤ size) :
      Except.ok (Json.string content) ≠ (Except.ok (.string text) : Except Value Json) := by
    intro same
    cases same
    omega
  cases within with
  | nil | bool | int => exact fun same => by cases same
  | float value =>
    rw [toJson, Json.ofFloat]
    split <;> exact fun same => by cases same
  | text short => exact shorter short
  | keyword short => exact shorter (Nat.le_of_lt short)
  | symbol short => exact shorter short
  | code short => exact shorter short

theorem Within.toText_ne (within : value.Within size) {text : String} (long : size < text.length)
    (call : text.toList.head? = some '(') : value.toText ≠ text := by
  have shorter {content : String} (short : content.length ≤ size) : content ≠ text := by
    rintro rfl
    omega
  have starts {content : String} (other : content.toList.head? ≠ some '(') : content ≠ text := by
    rintro rfl
    exact other call
  have number {content : String} (isNumber : Json.IsNumber content.toList) : content ≠ text := by
    obtain ⟨written, read⟩ := isNumber
    obtain ⟨first, more, characters, start⟩ := Json.number?_head read
    apply starts
    rw [characters, List.head?_cons]
    intro same
    cases same
    exact absurd start (by decide)
  cases within with
  | nil => exact starts (by decide)
  | bool value => cases value <;> exact starts (by decide)
  | int value => exact number ⟨_, Json.number?_toString value.toInt⟩
  | float value =>
    change displayFloat value ≠ text
    unfold displayFloat
    split
    · exact number (floatLayout.finite_isNumber (.inl rfl) value)
    · split
      · exact starts (by decide)
      · split <;> exact starts (by decide)
  | text short => exact shorter short
  | @keyword name =>
    apply starts
    change (":" ++ name).toList.head? ≠ some '('
    simp
  | symbol short => exact shorter short
  | code short => exact shorter short

/-- Argument lists are several only where code lists them, and each is shorter than
the code. -/
theorem Within.printedArglists (within : value.Within size) :
    (Record.printedArglists value).length ≤ 1 ∨
      ∀ text ∈ Record.printedArglists value, text.length < size := by
  cases within with
  | nil => exact .inl (Nat.zero_le 1)
  | bool | int | float | text | keyword | symbol => exact .inl (Nat.le_refl 1)
  | @code form short =>
    have listed {shape : Shape} {items : List Form} {span : Span} {metadata : List (Form × Form)}
        (short : (Form.group shape items span metadata).render.length ≤ size) :
        ∀ text ∈ items.map Form.render, text.length < size :=
      List.forall_mem_map.2 fun item member =>
        Nat.lt_of_lt_of_le (Form.length_render_lt member span metadata) short
    cases form with
    | group shape items =>
      cases shape with
      | list => exact .inr (listed short)
      | vector => exact .inr (listed short)
      | set | function => exact .inl (Nat.le_refl 1)
    | atom | map | marked => exact .inl (Nat.le_refl 1)

end Value

theorem Definition.entryValue_of_kept {key : String} (kept : key ∉ Record.droppedKeys)
    (other : key ≠ "arglists") (form : Form) : entryValue key form = Value.ofForm form := by
  have compiled : ¬ (key = "inline" ∨ key = "inline-arities") := by
    rintro (rfl | rfl) <;> exact kept (by decide)
  rw [entryValue, if_neg compiled, if_neg other]

structure Quotation where
  inner : Form
  markSpan : Span
  markMetadata : List (Form × Form)
  headSpan : Span
  headMetadata : List (Form × Form)
  callSpan : Span
  callMetadata : List (Form × Form)

namespace Quotation

variable (quotation : Quotation)

def sugar : Form := .marked (.sigil .quote) quotation.inner quotation.markSpan quotation.markMetadata

def call : Form :=
  .group .list [.atom (.symbol "quote") quotation.headSpan quotation.headMetadata, quotation.inner]
    quotation.callSpan quotation.callMetadata

theorem ofForm_call : Value.ofForm quotation.call = .code quotation.call := by
  rw [call, Value.ofForm]
  simp

theorem ofForm_sugar_within : (Value.ofForm quotation.sugar).Within quotation.inner.render.length :=
  Value.ofForm_quoted_within _ _ _

theorem render_call : quotation.call.render = "(quote " ++ quotation.inner.render ++ ")" := by
  rw [← String.toList_inj]
  simp [call, Form.render, Form.renderAll, Atom.render, Shape.openText, Shape.delimiter,
    Delimiter.closeText]

theorem printedArglists_call :
    Record.printedArglists (Definition.arglistsValue quotation.call) =
      ["quote", quotation.inner.render] := rfl

theorem printedArglists_sugar :
    (Record.printedArglists (Definition.arglistsValue quotation.sugar)).length ≤ 1 ∨
      ∀ text ∈ Record.printedArglists (Definition.arglistsValue quotation.sugar),
        text.length < quotation.inner.render.length := by
  unfold sugar
  cases quotation.inner with
  | atom leaf span metadata => exact (Value.ofForm_atom_within leaf span metadata).printedArglists
  | group shape items span metadata =>
    cases shape with
    | list | vector =>
      refine .inr fun text member => ?_
      obtain ⟨item, found, rfl⟩ := List.mem_map.1 member
      obtain ⟨form, isItem, rfl⟩ := List.mem_map.1 found
      exact Form.length_render_lt isItem span metadata
    | set | function => exact .inl (Nat.le_refl 1)
  | map entries span metadata =>
    change (Record.printedArglists (Value.ofForm (.map entries span metadata))).length ≤ 1 ∨ _
    rw [Value.ofForm]
    cases Value.ofEntries? entries <;> exact .inl (Nat.le_refl 1)
  | marked mark inmost span metadata =>
    by_cases quotes : mark = .sigil .quote
    · subst quotes
      exact ((Value.ofForm_quoted_within inmost span metadata).mono
        (Form.length_le_render_marked _ inmost span metadata)).printedArglists
    · have kept := Value.ofForm_marked quotes inmost span metadata
      change (Record.printedArglists (Value.ofForm (.marked mark inmost span metadata))).length ≤ 1 ∨ _
      rw [kept]
      exact .inl (Nat.le_refl 1)

theorem printedArglists_listed {items : List Form}
    (listed : quotation.inner.list?.or quotation.inner.vector? = some items) :
    Record.printedArglists (Definition.arglistsValue quotation.sugar) = items.map Form.render := by
  unfold sugar
  revert listed
  cases quotation.inner with
  | group shape inner =>
    cases shape with
    | list | vector =>
      rintro ⟨⟩
      exact List.map_map
    | set | function => rintro ⟨⟩
  | atom | map | marked => rintro ⟨⟩

theorem printedArglists_ne :
    Record.printedArglists (Definition.arglistsValue quotation.sugar) ≠
      ["quote", quotation.inner.render] := by
  intro same
  have printed := quotation.printedArglists_sugar
  rw [same] at printed
  rcases printed with few | short
  · exact absurd few (by simp)
  · exact Nat.lt_irrefl _ (short quotation.inner.render (by simp))

/-- What a record keeps of the call: its text, and of argument lists the function
and the argument. -/
def keptCall (key : String) : Json :=
  if key = "arglists" then .array [.string "quote", .string quotation.inner.render]
  else .string ("(quote " ++ quotation.inner.render ++ ")")

theorem toJson_call {key : String} (kept : key ∉ Record.droppedKeys) :
    (Record.normalizeField key (Definition.entryValue key quotation.call)).map Value.toJson =
      some (.ok (quotation.keptCall key)) := by
  unfold keptCall
  by_cases arglists : key = "arglists"
  · subst arglists
    change some (Value.seq (List.map Value.text
      (Record.printedArglists (Definition.arglistsValue quotation.call)))).toJson = _
    rw [Value.toJson, Value.itemsToJson_texts, printedArglists_call, if_pos rfl]
    rfl
  rw [if_neg arglists, Definition.entryValue_of_kept kept arglists, ofForm_call, ← render_call]
  by_cases textual : key ∈ Record.textKeys
  · rw [Record.normalizeField_text textual (by simp)]
    rfl
  · rw [Record.normalizeField_other kept textual arglists]
    rfl

/-- What a record keeps of the two spellings is never the same. -/
theorem toJson_normalizeField_ne {key : String} (kept : key ∉ Record.droppedKeys) :
    (Record.normalizeField key (Definition.entryValue key quotation.sugar)).map Value.toJson ≠
      (Record.normalizeField key (Definition.entryValue key quotation.call)).map Value.toJson := by
  have within := quotation.ofForm_sugar_within
  have long : quotation.inner.render.length < ("(quote " ++ quotation.inner.render ++ ")").length := by
    rw [String.length_append, String.length_append]
    exact Nat.lt_add_right _ (Nat.lt_add_of_pos_left (by decide))
  -- Whatever is kept of the mark is no longer than what is quoted, and the call is.
  rw [quotation.toJson_call kept, keptCall]
  by_cases arglists : key = "arglists"
  · subst arglists
    change some (Value.seq (List.map Value.text
      (Record.printedArglists (Definition.arglistsValue quotation.sugar)))).toJson ≠ _
    rw [Value.toJson, Value.itemsToJson_texts, if_pos rfl]
    intro same
    have printed : List.map Json.string (Record.printedArglists (Definition.arglistsValue quotation.sugar)) =
        ["quote", quotation.inner.render].map .string :=
      Json.array.inj (Except.ok.inj (Option.some.inj same))
    exact quotation.printedArglists_ne ((List.map_inj_right fun _ _ => Json.string.inj).1 printed)
  rw [if_neg arglists, Definition.entryValue_of_kept kept arglists]
  by_cases textual : key ∈ Record.textKeys
  · by_cases nilTag : key = "tag" ∧ Value.ofForm quotation.sugar = .nil
    · obtain ⟨rfl, isNil⟩ := nilTag
      rw [isNil, Record.normalizeField_nilTag]
      exact fun same => by cases same
    · rw [Record.normalizeField_text textual nilTag]
      intro same
      exact within.toText_ne long (by simp) (Json.string.inj (Except.ok.inj (Option.some.inj same)))
  · rw [Record.normalizeField_other kept textual arglists]
    exact fun same => within.toJson_ne long (Option.some.inj same)

end Quotation

end VarDoc
