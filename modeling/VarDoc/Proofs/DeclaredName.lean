import VarDoc.Proofs.LexingLocality
import VarDoc.Proofs.ResolutionSuccess

/-! How much of a file decides its declared name. A list ends in a closing
bracket, and a closing bracket fixes every token up to itself. So a list that has
been read, and the forms before it, are read alike whatever is written behind
them, and what follows the first `ns` form does not count. -/

set_option autoImplicit false

namespace VarDoc

variable {features : Features}

def EndsClosed (tokens : List Token) : Prop :=
  ∃ front closing delimiter, tokens = front ++ [closing] ∧ closing.kind = .closes delimiter

theorem EndsClosed.after {tokens : List Token} (ends : EndsClosed tokens) (before : List Token) :
    EndsClosed (before ++ tokens) := by
  obtain ⟨front, closing, delimiter, rfl, closes⟩ := ends
  exact ⟨before ++ front, closing, delimiter, by rw [List.append_assoc], closes⟩

theorem endsClosed_bracketed (before : List Token) {closing : Token} {delimiter : Delimiter}
    (closes : closing.kind = .closes delimiter) : EndsClosed (before ++ [closing]) :=
  ⟨before, closing, delimiter, rfl, closes⟩

theorem list?_withMetadata (start : Span) (entries : List (Form × Form)) (form : Form) :
    (form.withMetadata start entries).list? = form.list? := by
  cases form with
  | group shape => cases shape <;> rfl
  | atom | map | marked => rfl

/-- What is read as a list ends in a closing bracket: its own, or that of the
conditional around it. -/
theorem Derives.endsClosed {phrase : Phrase} {tokens : List Token} {forms : List Form}
    (derives : Derives features phrase tokens forms) (single : ∀ collecting, phrase ≠ .items collecting)
    {form : Form} (read : forms = [form]) (isList : form.list?.isSome = true) : EndsClosed tokens := by
  induction derives generalizing form with
  | atom | marked | namespacedMap | map =>
    obtain rfl := (List.cons.inj read).1
    contradiction
  | @group _ _ opening _ body _ _ _ closes => exact endsClosed_bracketed (opening :: body) closes
  | @metadata _ token first second _ target entries _ _ _ _ _ ih =>
    obtain rfl := (List.cons.inj read).1
    rw [list?_withMetadata] at isList
    exact (ih nofun rfl isList).after (token :: first)
  | discard => contradiction
  | @conditional _ token opening _ body _ _ _ _ _ closes =>
    exact endsClosed_bracketed (token :: opening :: body) closes
  | @splice token opening _ body _ _ _ _ _ _ closes =>
    exact endsClosed_bracketed (token :: opening :: body) closes
  | nil | cons => exact absurd rfl (single _)
  | here _ ih => exact ih nofun read isList
  | later _ _ _ ih => exact (ih nofun read isList).after _

/-- Once a list has been read, neither it nor what was read before it changes
with the text behind it. -/
theorem readEach_append_of_list {text : String} {forms : List Form} {form : Form}
    {others : List (Except ReadError Form)}
    (read : readEach features text = forms.map .ok ++ .ok form :: others)
    (isList : form.list?.isSome = true) (more : String) :
    ∃ later, readEach features (text ++ more) = forms.map .ok ++ .ok form :: later := by
  obtain ⟨front, rest, whole, before, after⟩ := List.map_eq_append_iff.1 read
  obtain ⟨next, behind, rfl, isForm, -⟩ := List.map_eq_cons_iff.1 after
  rw [map_mapError_eq_ok_iff.1 before, mapError_eq_ok_iff.1 isForm] at whole
  obtain ⟨tokens, rest, lexed, derives, next⟩ := derives_of_readOutcomes_append whole
  obtain ⟨one, rest, rfl, derivesForm, -⟩ := derives_of_readOutcomes_cons next
  -- The list has a closing bracket, and up to there the longer text is lexed alike.
  obtain ⟨front, closing, delimiter, rfl, closes⟩ := derivesForm.endsClosed nofun rfl isList
  rw [← List.append_assoc, ← lexedItems_append, ← List.append_assoc] at lexed
  obtain ⟨items, longer⟩ := lex_closed closes lexed more.toList
  have again := derives.append derivesForm.items_of_one
  rw [← List.append_assoc] at again
  rw [readEach, String.toList_append, longer, readOutcomes_append again, List.map_append,
    map_mapError_eq_ok_iff.2 rfl, List.map_append, List.append_assoc]
  exact ⟨_, rfl⟩

/-- An answer that is more than an error of reading was given by an `ns` form, and
holds for all files that have the same forms up to this one. -/
theorem declaredNameIn_decided {path : Path} {outcomes : List (Except ReadError Form)}
    (decided : (∃ name, declaredNameIn path outcomes = .ok name) ∨
      declaredNameIn path outcomes = .error (.unnamedDeclaration path)) :
    ∃ (forms : List Form) (form : Form) (others : List (Except ReadError Form)),
      outcomes = forms.map .ok ++ .ok form :: others ∧
      form.isCallTo "ns" = true ∧
      ∀ later, declaredNameIn path (forms.map .ok ++ .ok form :: later) =
        declaredNameIn path outcomes := by
  induction outcomes with
  | nil => simp [declaredNameIn] at decided
  | cons outcome rest ih =>
    cases outcome with
    | error => simp [declaredNameIn] at decided
    | ok form =>
      cases declares : form.isCallTo "ns" with
      | true => exact ⟨[], form, rest, rfl, declares, fun later => by simp [declaredNameIn, declares]⟩
      | false =>
        have skip (outcomes : List (Except ReadError Form)) :
            declaredNameIn path (.ok form :: outcomes) = declaredNameIn path outcomes := by
          simp [declaredNameIn, declares]
        rw [skip] at decided
        obtain ⟨forms, found, others, rfl, isDeclaration, same⟩ := ih decided
        refine ⟨form :: forms, found, others, rfl, isDeclaration, fun later => ?_⟩
        rw [List.map_cons, List.cons_append, skip, skip, same]

theorem list?_of_isCallTo {form : Form} {name : String} (calls : form.isCallTo name = true) :
    form.list?.isSome = true := by
  unfold Form.isCallTo Form.head? at calls
  cases found : form.list? with
  | none => simp [found] at calls
  | some => rfl

/-- Where the first `ns` form of a file has been read, its name or the lack of one
is the answer for every file that begins with the same text. -/
theorem declaredName_settled_by_front (loader : Loader) {tree longer : FileTree}
    {source : SourceFile} {text more : String} (read : tree.readText source.path = .ok text)
    (extended : longer.readText source.path = .ok (text ++ more))
    (decided : (∃ name, loader.declaredName tree source = .ok name) ∨
      loader.declaredName tree source = .error (.unnamedDeclaration source.path)) :
    loader.declaredName longer source = loader.declaredName tree source := by
  unfold Loader.declaredName VarDoc.declaredName at decided ⊢
  rw [read] at decided
  rw [read, extended]
  obtain ⟨forms, form, others, each, declares, same⟩ := declaredNameIn_decided decided
  obtain ⟨later, longerEach⟩ := readEach_append_of_list each (list?_of_isCallTo declares) more
  simp only [longerEach]
  exact same later

/-- The name stands in a conditional before a string that is not closed, and is
the same once the rest of the string and an unmatched bracket have been written. -/
theorem name_before_open_string :
    let loader := Loader.new ["clj"]
    let source : SourceFile := ⟨⟨"."⟩, ⟨"./a.clj"⟩⟩
    let text := "#?(:cljs 1 :clj ^:k (ns a.b)) \"(ns"
    let tree := FileTree.flat [("a.clj", text)]
    let longer := FileTree.flat [("a.clj", text ++ " c)\" ]")]
    loader.declaredName tree source = .ok "a.b" ∧
      loader.declaredName longer source = loader.declaredName tree source := by
  intro loader source text tree longer
  have read : tree.readText source.path = .ok text := eq_ok_of_toOption (by decide +kernel)
  have extended : longer.readText source.path = .ok (text ++ " c)\" ]") :=
    eq_ok_of_toOption (by decide +kernel)
  have declared : loader.declaredName tree source = .ok "a.b" := eq_ok_of_toOption (by decide +kernel)
  exact ⟨declared, declaredName_settled_by_front loader read extended (.inl ⟨_, declared⟩)⟩

end VarDoc
