import VarDoc.Proofs.Printable
import VarDoc.Proofs.ReaderGrammar

/-! Printing and reading again. A form that source text gave is printed as text
that reads as one form: the same tree without metadata, where the marks that
are printed as calls have become those calls. -/

set_option autoImplicit false

namespace VarDoc

def Mark.call? : Mark → Option String
  | .sigil .quote => some "quote"
  | .sigil .deref => some "clojure.core/deref"
  | .sigil .var => some "var"
  | _ => none

def Span.nowhere : Span := ⟨0, 0⟩

namespace Form

mutual

def unplaced : Form → Form
  | .atom leaf _ metadata => .atom leaf .nowhere (unplacedPairs metadata)
  | .group shape items _ metadata => .group shape (unplacedAll items) .nowhere (unplacedPairs metadata)
  | .map entries _ metadata => .map (unplacedPairs entries) .nowhere (unplacedPairs metadata)
  | .marked mark inner _ metadata => .marked mark inner.unplaced .nowhere (unplacedPairs metadata)

def unplacedAll : List Form → List Form
  | [] => []
  | form :: rest => form.unplaced :: unplacedAll rest

def unplacedPairs : List (Form × Form) → List (Form × Form)
  | [] => []
  | (key, value) :: rest => (key.unplaced, value.unplaced) :: unplacedPairs rest

end

mutual

/-- The tree without metadata, with calls in place of the marks that stand for
them. -/
def desugared : Form → Form
  | .atom leaf _ _ => .atom leaf .nowhere []
  | .group shape items _ _ => .group shape (desugaredAll items) .nowhere []
  | .map entries _ _ => .map (desugaredPairs entries) .nowhere []
  | .marked mark inner _ _ =>
    match mark.call? with
    | some name =>
      .group .list [.atom (.symbol name) .nowhere [], inner.desugared] .nowhere []
    | none => .marked mark inner.desugared .nowhere []

def desugaredAll : List Form → List Form
  | [] => []
  | form :: rest => form.desugared :: desugaredAll rest

def desugaredPairs : List (Form × Form) → List (Form × Form)
  | [] => []
  | (key, value) :: rest => (key.desugared, value.desugared) :: desugaredPairs rest

end

theorem unplacedAll_eq (forms : List Form) : unplacedAll forms = forms.map unplaced := by
  induction forms with
  | nil => rfl
  | cons form forms ih => rw [unplacedAll, ih, List.map_cons]

theorem unplacedPairs_eq (entries : List (Form × Form)) :
    unplacedPairs entries = entries.map (Prod.map unplaced unplaced) := by
  induction entries with
  | nil => rfl
  | cons entry entries ih => rw [unplacedPairs, ih, List.map_cons]; rfl

theorem desugaredAll_eq (forms : List Form) : desugaredAll forms = forms.map desugared := by
  induction forms with
  | nil => rfl
  | cons form forms ih => rw [desugaredAll, ih, List.map_cons]

theorem desugaredPairs_eq (entries : List (Form × Form)) :
    desugaredPairs entries = entries.map (Prod.map desugared desugared) := by
  induction entries with
  | nil => rfl
  | cons entry entries ih => rw [desugaredPairs, ih, List.map_cons]; rfl

def call (name : String) (inner : Form) : Form :=
  .group .list [.atom (.symbol name) .nowhere [], inner] .nowhere []

theorem render_call {mark : Mark} {name : String} (calls : mark.call? = some name) (inner : Form)
    (span : Span) (metadata : List (Form × Form)) :
    (Form.marked mark inner span metadata).render = (call name inner).render := by
  rw [← String.toList_inj]
  fun_cases Mark.call? mark with
  | case1 | case2 | case3 =>
    cases calls
    simp [call, render, renderAll, Mark.around, Atom.render, Shape.openText, Shape.delimiter,
      Delimiter.closeText]
  | case4 => simp_all [Mark.call?]

mutual

theorem render_unplaced : ∀ form : Form, form.unplaced.render = form.render
  | .atom _ _ _ => rfl
  | .group _ items _ _ => by rw [unplaced, render, render, renderAll_unplaced items]
  | .map entries _ _ => by rw [unplaced, render, render, renderPairs_unplaced entries]
  | .marked _ inner _ _ => by rw [unplaced, render, render, render_unplaced inner]

theorem renderAll_unplaced : ∀ forms : List Form, renderAll (unplacedAll forms) = renderAll forms
  | [] => rfl
  | form :: rest => by
    rw [unplacedAll, renderAll, renderAll, render_unplaced form, renderAll_unplaced rest]

theorem renderPairs_unplaced :
    ∀ entries : List (Form × Form), renderPairs (unplacedPairs entries) = renderPairs entries
  | [] => rfl
  | (key, value) :: rest => by
    rw [unplacedPairs, renderPairs, renderPairs, render_unplaced key, render_unplaced value,
      renderPairs_unplaced rest]

end

mutual

theorem render_desugared : ∀ form : Form, form.desugared.render = form.render
  | .atom _ _ _ => rfl
  | .group _ items _ _ => by rw [desugared, render, render, renderAll_desugared items]
  | .map entries _ _ => by rw [desugared, render, render, renderPairs_desugared entries]
  | .marked mark inner _ _ => by
    rw [desugared]
    split
    next name calls =>
      rw [render_call calls]
      simp only [call, render, renderAll, render_desugared inner]
    next => rw [render, render, render_desugared inner]

theorem renderAll_desugared : ∀ forms : List Form, renderAll (desugaredAll forms) = renderAll forms
  | [] => rfl
  | form :: rest => by
    rw [desugaredAll, renderAll, renderAll, render_desugared form, renderAll_desugared rest]

theorem renderPairs_desugared :
    ∀ entries : List (Form × Form), renderPairs (desugaredPairs entries) = renderPairs entries
  | [] => rfl
  | (key, value) :: rest => by
    rw [desugaredPairs, renderPairs, renderPairs, render_desugared key, render_desugared value,
      renderPairs_desugared rest]

end

end Form

def LexesAs (text : List Char) (offset : Nat) (rest : List Char) (tokens : List Token) : Prop :=
  lexFrom 0 offset (text ++ rest) = lexedItems tokens ++ lexFrom 0 (offset + Text.width text) rest

namespace LexesAs

variable {offset : Nat} {rest : List Char}

theorem append {first second : List Char} {tokens others : List Token}
    (front : LexesAs first offset (second ++ rest) tokens)
    (back : LexesAs second (offset + Text.width first) rest others) :
    LexesAs (first ++ second) offset rest (tokens ++ others) := by
  unfold LexesAs at front back ⊢
  rw [List.append_assoc, front, back, lexedItems_append, List.append_assoc, Text.width_append,
    Nat.add_assoc]

theorem token {kind : TokenKind} {text : List Char} (nonempty : text ≠ [])
    (spelled : SpelledBefore rest kind text) :
    LexesAs text offset rest [Token.at kind text offset] :=
  lexFrom_spelled nonempty spelled offset

theorem empty : LexesAs [] offset rest [] := rfl

theorem gap {c : Char} (skipped : isGap c = true) : LexesAs [c] offset rest [] :=
  lexFrom_gap skipped rest offset

end LexesAs

/-- Wherever the text stands in a collection, it reads as forms with the given
trees. -/
def ReadsAs (text : List Char) (trees : List Form) : Prop :=
  ∀ offset rest, Ends rest → ∃ tokens forms, LexesAs text offset rest tokens ∧
    (∀ features, Derives features (.items true) tokens forms) ∧ forms.map Form.unplaced = trees

/-- What is printed of the form reads as one form, which is the same without
metadata and marks that stand for calls. -/
def Form.ReadsBack (form : Form) : Prop :=
  ∀ offset rest, Ends rest → ∃ tokens again, LexesAs form.render.toList offset rest tokens ∧
    (∀ features collecting, Derives features (.item collecting) tokens [again]) ∧
    again.unplaced = form.desugared

theorem Form.ReadsBack.readsAs {form : Form} (readsBack : form.ReadsBack) :
    ReadsAs form.render.toList [form.desugared] := by
  intro offset rest ends
  obtain ⟨tokens, again, lexes, derives, same⟩ := readsBack offset rest ends
  exact ⟨tokens, [again], lexes, fun features => (derives features true).single, by simp [same]⟩

theorem ReadsAs.nil : ReadsAs [] [] :=
  fun _ _ _ => ⟨[], [], .empty, fun _ => .nil, rfl⟩

theorem LexesAs.gaps {gaps : List Char} (skipped : gaps.all isGap = true) {offset : Nat}
    {rest : List Char} : LexesAs gaps offset rest [] := by
  induction gaps generalizing offset with
  | nil => exact .empty
  | cons c gaps ih =>
    rw [List.all_cons, Bool.and_eq_true] at skipped
    exact .append (.gap skipped.1) (ih skipped.2)

theorem ends_of_gap {c : Char} (gap : isGap c = true) (rest : List Char) : Ends (c :: rest) := by
  intro first same
  obtain rfl := Option.mem_some.1 same
  simp only [isGap, Bool.or_eq_true, beq_iff_eq] at gap
  rcases gap with ((((rfl | rfl) | rfl) | rfl) | rfl) | rfl <;> decide

/-- Texts with a gap between them read one after the other. -/
theorem ReadsAs.append {first second gaps : List Char} {c : Char} {trees others : List Form}
    (front : ReadsAs first trees) (back : ReadsAs second others)
    (skipped : (c :: gaps).all isGap = true) :
    ReadsAs (first ++ (c :: gaps ++ second)) (trees ++ others) := by
  intro offset rest ends
  have gap : isGap c = true := List.all_eq_true.1 skipped c List.mem_cons_self
  obtain ⟨tokens, forms, lexes, derives, same⟩ :=
    front offset (c :: gaps ++ second ++ rest) (ends_of_gap gap _)
  obtain ⟨more, after, lexesAfter, derivesAfter, sameAfter⟩ :=
    back (offset + Text.width first + Text.width (c :: gaps)) rest ends
  refine ⟨tokens ++ more, forms ++ after, ?_, fun features => ?_, ?_⟩
  · exact lexes.append (LexesAs.append (.gaps skipped) lexesAfter)
  · exact (derives features).append (derivesAfter features)
  · rw [List.map_append, same, sameAfter]

theorem ReadsAs.intercalate {α : Type} {items : List α} {separator : String} {text : α → String}
    {trees : α → List Form} {c : Char} {gaps : List Char} (separates : separator.toList = c :: gaps)
    (skipped : (c :: gaps).all isGap = true)
    (each : ∀ item ∈ items, ReadsAs (text item).toList (trees item)) :
    ReadsAs (separator.intercalate (items.map text)).toList (items.flatMap trees) := by
  induction items with
  | nil => simpa using ReadsAs.nil
  | cons item items ih =>
    have head := each item List.mem_cons_self
    have tail := ih fun other member => each other (List.mem_cons_of_mem _ member)
    cases items with
    | nil => simpa using head
    | cons next items =>
      have joined := head.append tail skipped
      rw [← separates] at joined
      simpa [String.toList_intercalate, List.intercalate] using joined

theorem Form.renderAll_eq (items : List Form) : renderAll items = items.map render := by
  induction items with
  | nil => rfl
  | cons item items ih => rw [renderAll, ih, List.map_cons]

theorem Form.renderPairs_eq (entries : List (Form × Form)) :
    renderPairs entries = entries.map fun entry => entry.1.render ++ " " ++ entry.2.render := by
  induction entries with
  | nil => rfl
  | cons entry entries ih => rw [renderPairs, ih, List.map_cons]

theorem ends_close (delimiter : Delimiter) (rest : List Char) :
    Ends (delimiter.closeText.toList ++ rest) := by
  cases delimiter <;> intro c same <;> obtain rfl := Option.mem_some.1 same <;> decide

theorem Shape.openText_ne_nil (shape : Shape) : shape.openText.toList ≠ [] := by
  cases shape <;> decide

theorem Delimiter.closeText_ne_nil (delimiter : Delimiter) : delimiter.closeText.toList ≠ [] := by
  cases delimiter <;> decide

theorem ReadsAs.bracketed {opening body : List Char} {trees : List Form} {kind : TokenKind}
    (inside : ReadsAs body trees) (nonempty : opening ≠ [])
    (opens : ∀ rest, SpelledBefore rest kind opening) (delimiter : Delimiter) (offset : Nat)
    (rest : List Char) :
    ∃ (first last : Token) (tokens : List Token) (forms : List Form), first.kind = kind ∧
      last.kind = .closes delimiter ∧
      LexesAs (opening ++ body ++ delimiter.closeText.toList) offset rest
        (first :: (tokens ++ [last])) ∧
      (∀ features, Derives features (.items true) tokens forms) ∧
      forms.map Form.unplaced = trees := by
  obtain ⟨tokens, forms, lexes, derives, same⟩ :=
    inside (offset + Text.width opening) _ (ends_close delimiter rest)
  have first : LexesAs opening offset (body ++ (delimiter.closeText.toList ++ rest)) _ :=
    .token nonempty (opens _)
  have last : LexesAs delimiter.closeText.toList (offset + Text.width (opening ++ body)) rest _ :=
    .token delimiter.closeText_ne_nil (spelledBefore_close delimiter rest)
  exact ⟨_, _, tokens, forms, rfl, rfl, (first.append lexes).append last, derives, same⟩

theorem readsBack_group (shape : Shape) {items : List Form} (span : Span)
    (metadata : List (Form × Form)) (each : ∀ item ∈ items, item.ReadsBack) :
    (Form.group shape items span metadata).ReadsBack := by
  have inside : ReadsAs (" ".intercalate (Form.renderAll items)).toList
      (items.flatMap fun item => [item.desugared]) := by
    rw [Form.renderAll_eq]
    exact .intercalate rfl (by decide) fun item member => (each item member).readsAs
  intro offset rest _
  obtain ⟨first, last, tokens, forms, opens, closes, lexes, derives, same⟩ :=
    inside.bracketed shape.openText_ne_nil (spelledBefore_open shape) shape.delimiter offset rest
  refine ⟨first :: (tokens ++ [last]), .group shape forms (first.span.merge last.span) [], ?_,
    fun features collecting => ?_, ?_⟩
  · rwa [Form.render, String.toList_append, String.toList_append]
  · exact .group opens (derives features) closes
  · rw [Form.unplaced, Form.desugared, Form.unplacedAll_eq, same, Form.desugaredAll_eq,
      List.map_eq_flatMap]
    rfl

theorem pairs?_map {α β : Type} (change : α → β) (items : List α) :
    pairs? (items.map change) = (pairs? items).map (List.map (Prod.map change change)) := by
  fun_induction pairs? items with
  | case1 => rfl
  | case2 => rfl
  | case3 first second rest ih =>
    rw [List.map_cons, List.map_cons, pairs?, ih, Option.map_map, Option.map_map]
    rfl

theorem readsBack_map {entries : List (Form × Form)} (span : Span) (metadata : List (Form × Form))
    (keys : ∀ entry ∈ entries, entry.1.ReadsBack) (values : ∀ entry ∈ entries, entry.2.ReadsBack) :
    (Form.map entries span metadata).ReadsBack := by
  have inside : ReadsAs (", ".intercalate (Form.renderPairs entries)).toList
      (entries.flatMap fun entry => [entry.1.desugared, entry.2.desugared]) := by
    rw [Form.renderPairs_eq]
    refine .intercalate rfl (by decide) fun entry member => ?_
    have space : [' '].all isGap = true := by decide
    simpa using (keys entry member).readsAs.append (values entry member).readsAs space
  intro offset rest _
  obtain ⟨first, last, tokens, forms, opens, closes, lexes, derives, same⟩ :=
    inside.bracketed (List.cons_ne_nil _ _) spelledBefore_openMap .curly offset rest
  have pairedTrees : pairs? (forms.map Form.unplaced) = some (Form.desugaredPairs entries) := by
    rw [pairs?_eq_some_iff, same, Form.desugaredPairs_eq]
    exact List.flatMap_map ..
  rw [pairs?_map] at pairedTrees
  obtain ⟨again, paired, sameEntries⟩ := Option.map_eq_some_iff.1 pairedTrees
  obtain rfl := pairs?_eq_some_iff.1 paired
  refine ⟨first :: (tokens ++ [last]), .map again (first.span.merge last.span) [], ?_,
    fun features collecting => ?_, ?_⟩
  · rw [Form.render, String.toList_append, String.toList_append]
    exact lexes
  · exact .map opens (derives features) closes
  · rw [Form.unplaced, Form.desugared, Form.unplacedPairs_eq, sameEntries]
    rfl

theorem Token.atom?_not_at {kind : TokenKind} {rest : List Char}
    (spelled : Spelled kind ('@' :: rest)) (span : Span) (lexeme : String) :
    Token.atom? ⟨kind, span, lexeme⟩ = none := by
  obtain ⟨pattern, chosen, makes⟩ := spelled
  obtain ⟨before, after, listed, -, wins⟩ := Pattern.wins_of_longest? chosen
  have only : ∀ pattern ∈ Pattern.all, pattern.mayStart '@' = true →
      pattern.kind? = some (.sigil .deref) := by decide
  rw [only pattern (by simp [listed]) (Pattern.mayStart_of_reach wins.reaches)] at makes
  cases makes
  rfl

theorem Form.Printable.head? {form : Form} (printable : form.Printable) (rest : List Char) :
    (form.render.toList ++ rest).head? ≠ some '@' := by
  cases printable with
  | @atom leaf span metadata leafPrintable =>
    obtain ⟨kind, spelled, denotes⟩ := leafPrintable
    obtain ⟨c, text, same⟩ := List.exists_cons_of_ne_nil spelled.ne_nil
    rw [render, same, List.cons_append, List.head?_cons]
    intro sign
    obtain rfl := Option.some.inj sign
    rw [same] at spelled
    exact absurd (denotes span) (by rw [Token.atom?_not_at spelled]; simp)
  | @group shape items => cases shape <;> simp [render, Shape.openText]
  | map => simp [render]
  | @marked mark inner =>
    match mark with
    | .tag name => simp [render, Mark.around]
    | .sigil sigil => cases sigil <;> simp [render, Mark.around]

/-- A mark that is not printed as a call is one token, after which the inner form
follows at once or after a space. -/
theorem readsBack_mark {mark : Mark} {inner : Form} {text gaps : List Char} {kind : TokenKind}
    (span : Span) (metadata : List (Form × Form)) (printed : mark.around = (String.ofList (text ++ gaps), ""))
    (plain : mark.call? = none) (nonempty : text ≠ []) (skipped : gaps.all isGap = true)
    (marks : ∀ span, Token.mark? ⟨kind, span, String.ofList text⟩ = some mark)
    (spelled : ∀ rest, SpelledBefore (gaps ++ (inner.render.toList ++ rest)) kind text)
    (readsBack : inner.ReadsBack) : (Form.marked mark inner span metadata).ReadsBack := by
  intro offset rest ends
  obtain ⟨tokens, again, lexes, derives, same⟩ :=
    readsBack (offset + Text.width (text ++ gaps)) rest ends
  let first := Token.at kind text offset
  have mark? : first.mark? = some mark := marks _
  have lexesFirst : LexesAs text offset (gaps ++ (inner.render.toList ++ rest)) [first] :=
    .token nonempty (spelled rest)
  have lexesAll := (lexesFirst.append (.gaps skipped)).append lexes
  refine ⟨first :: tokens, .marked mark again (first.span.merge again.span) [], ?_,
    fun features collecting => .marked mark? (.here (derives features false)), ?_⟩
  · simpa [Form.render, printed] using lexesAll
  · simp only [Form.unplaced, Form.desugared, plain, same]
    rfl

theorem readsBack_atom {leaf : Atom} (span : Span) (metadata : List (Form × Form))
    (printable : leaf.Printable) : (Form.atom leaf span metadata).ReadsBack := by
  intro offset rest ends
  obtain ⟨kind, spelled, denotes⟩ := printable
  have lexes : LexesAs leaf.render.toList offset rest [Token.at kind leaf.render.toList offset] :=
    .token spelled.ne_nil (spelled.before ends)
  refine ⟨_, .atom leaf (Token.at kind leaf.render.toList offset).span [], lexes,
    fun features collecting => .atom ?_, rfl⟩
  rw [Token.at, String.ofList_toList]
  exact denotes _

theorem Atom.symbol_printable {name : String} (spelled : Spelled .symbol name.toList)
    (plain : symbolAtom name = .symbol name) : (Atom.symbol name).Printable :=
  ⟨.symbol, spelled, fun _ => congrArg some plain⟩

theorem Mark.call?_printable {mark : Mark} {name : String} (calls : mark.call? = some name) :
    (Atom.symbol name).Printable := by
  fun_cases Mark.call? mark with
  | case1 | case2 | case3 =>
    cases calls
    exact Atom.symbol_printable ⟨.symbol, by decide +kernel, rfl⟩ (by decide)
  | case4 => simp_all [Mark.call?]

theorem readsBack_call {mark : Mark} {inner : Form} {name : String} (span : Span)
    (metadata : List (Form × Form)) (calls : mark.call? = some name) (readsBack : inner.ReadsBack) :
    (Form.marked mark inner span metadata).ReadsBack := by
  have call : (Form.call name inner).ReadsBack := by
    apply readsBack_group
    rw [List.forall_mem_cons, List.forall_mem_singleton]
    exact ⟨readsBack_atom _ _ (mark.call?_printable calls), readsBack⟩
  intro offset rest ends
  obtain ⟨tokens, again, lexes, derives, same⟩ := call offset rest ends
  refine ⟨tokens, again, ?_, derives, ?_⟩
  · rwa [Form.render_call calls]
  · rw [same, Form.desugared, calls]
    rfl

theorem readsBack_marked {mark : Mark} {inner : Form} (span : Span) (metadata : List (Form × Form))
    (markPrintable : mark.Printable) (innerPrintable : inner.Printable) (readsBack : inner.ReadsBack) :
    (Form.marked mark inner span metadata).ReadsBack := by
  have none : [].all isGap = true := List.all_nil
  match mark with
  | .sigil .quote => exact readsBack_call span metadata rfl readsBack
  | .sigil .deref => exact readsBack_call span metadata rfl readsBack
  | .sigil .var => exact readsBack_call span metadata rfl readsBack
  | .sigil .syntaxQuote =>
    have spelled (rest : List Char) := spelledBefore_syntaxQuote (inner.render.toList ++ rest)
    exact readsBack_mark span metadata rfl rfl (by decide) none (fun _ => rfl) spelled readsBack
  | .sigil .unquote =>
    have spelled (rest : List Char) := spelledBefore_unquote (innerPrintable.head? rest)
    exact readsBack_mark span metadata rfl rfl (by decide) none (fun _ => rfl) spelled readsBack
  | .sigil .unquoteSplicing =>
    have spelled (rest : List Char) := spelledBefore_unquoteSplicing (inner.render.toList ++ rest)
    exact readsBack_mark span metadata rfl rfl (by decide) none (fun _ => rfl) spelled readsBack
  | .tag name =>
    have space : [' '].all isGap = true := by decide
    have spelled (rest : List Char) :
        SpelledBefore ([' '] ++ (inner.render.toList ++ rest)) .tagged ('#' :: name.toList) :=
      Spelled.before markPrintable (ends_of_gap (by decide) _)
    have printed : (Mark.tag name).around = (String.ofList ('#' :: name.toList ++ [' ']), "") := by
      rw [Mark.around, Prod.mk.injEq, ← String.toList_inj]
      simp
    have marks (span : Span) :
        Token.mark? ⟨.tagged, span, String.ofList ('#' :: name.toList)⟩ = some (.tag name) := by
      simp [Token.mark?, lexemeAfter]
    exact readsBack_mark span metadata printed rfl (by simp) space marks spelled readsBack

theorem Form.Printable.readsBack {form : Form} (printable : form.Printable) : form.ReadsBack := by
  induction printable with
  | atom leafPrintable => exact readsBack_atom _ _ leafPrintable
  | group _ each => exact readsBack_group _ _ _ each
  | map _ _ keys values => exact readsBack_map _ _ keys values
  | marked markPrintable innerPrintable inner =>
    exact readsBack_marked _ _ markPrintable innerPrintable inner

theorem readAll_printable {features : Features} {source : String} {forms : List Form}
    (read : readAll features source = .ok forms) : ∀ form ∈ forms, form.Printable := by
  obtain ⟨tokens, lexed, derives⟩ := derives_of_readOutcomes (readAll_eq_ok_iff.1 read)
  apply derives.printable
  intro token member
  apply spelled_of_lexed
  rw [← lex, lexed]
  exact List.mem_map_of_mem member

/-- What is printed of a form that was read is read, with any features, as one
form: the same tree without metadata, where calls have taken the place of the
marks that stand for them. It is printed alike. -/
theorem printed_form_reads_back {features : Features} {source : String} {forms : List Form}
    (read : readAll features source = .ok forms) {form : Form} (member : form ∈ forms)
    (others : Features) :
    ∃ again, readAll others form.render = .ok [again] ∧ again.unplaced = form.desugared ∧
      again.render = form.render := by
  have printable := readAll_printable read form member
  obtain ⟨tokens, again, lexes, derives, same⟩ := printable.readsBack 0 [] (by simp [Ends])
  have lexed : tokenize form.render.toList = .ok tokens := by
    rw [tokenize_eq_ok_iff]
    simpa [LexesAs, lex, lexFrom] using lexes
  refine ⟨again, ?_, same, ?_⟩
  · exact (readAll_iff_derives lexed [again]).2 (derives others false).single
  · rw [← again.render_unplaced, same, form.render_desugared]

/-- An unquoted deref loses its metadata, and its two marks do not run together. -/
theorem unquoted_deref_reads_back : ∃ form, readAll ["clj"] "^:k ~ @x" = .ok [form] ∧
    form.render = "~(clojure.core/deref x)" ∧
    ∃ again, readAll ["cljs"] form.render = .ok [again] ∧ again.unplaced = form.desugared ∧
      again.render = form.render := by
  let caret : Token := ⟨.metadata, ⟨0, 1⟩, "^"⟩
  let key : Token := ⟨.keyword, ⟨1, 3⟩, ":k"⟩
  let tilde : Token := ⟨.sigil .unquote, ⟨4, 5⟩, "~"⟩
  let sign : Token := ⟨.sigil .deref, ⟨6, 7⟩, "@"⟩
  let name : Token := ⟨.symbol, ⟨7, 8⟩, "x"⟩
  have lexed : tokenize "^:k ~ @x".toList = .ok [caret, key, tilde, sign, name] :=
    tokenize_eq_ok_iff.2 (by decide +kernel)
  have described : Derives ["clj"] .one [key] [.atom (.keyword "k") ⟨1, 3⟩ []] :=
    .here (.atom (by decide))
  have target : Derives ["clj"] .one [tilde, sign, name] _ :=
    .here (.marked rfl (.here (.marked rfl (.here (.atom (show name.atom? = some (.symbol "x") by decide))))))
  have derives : DerivesProgram ["clj"] [caret, key, tilde, sign, name] _ :=
    Derives.single (.metadata rfl described .keyword target)
  have read := (readAll_iff_derives lexed _).2 derives
  exact ⟨_, read, by decide +kernel, printed_form_reads_back read List.mem_cons_self ["cljs"]⟩

end VarDoc
