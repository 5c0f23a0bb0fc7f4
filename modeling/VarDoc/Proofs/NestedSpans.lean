import VarDoc.Proofs.ReadingProgress
import VarDoc.Proofs.SpannedText

/-! How spans nest. A form that is read starts with a token and stops with one,
the forms inside it lie within its span one behind the other, and so do, in any
order, the keys and values of its metadata. Forms that come out of conditionals
and splices keep the spans they had inside, and what is made up for a form, a
qualified key or the entry of a lone keyword, stands where its origin does. So all
of this follows from the tokens that derive a form, and these stand in order. -/

set_option autoImplicit false

namespace VarDoc

variable {features : Features} {size : Nat}

namespace Span

def Within (inner outer : Span) : Prop := outer.start ≤ inner.start ∧ inner.stop ≤ outer.stop

/-- The first is over where the second starts, so that both its ends come earlier. -/
structure Before (left right : Span) : Prop where
  disjoint : left.stop ≤ right.start
  starts : left.start < right.start
  stops : left.stop < right.stop

theorem Within.trans {inner middle outer : Span} (first : inner.Within middle)
    (second : middle.Within outer) : inner.Within outer :=
  ⟨Nat.le_trans second.1 first.1, Nat.le_trans first.2 second.2⟩

theorem merge_of_le {left right : Span} (proper : left.start ≤ left.stop)
    (apart : left.stop ≤ right.start) (also : right.start ≤ right.stop) :
    left.merge right = ⟨left.start, right.stop⟩ := by
  simp only [merge, mk.injEq]
  omega

end Span

namespace Form

/-- The forms right inside a form, in reading order. Metadata is not among them. -/
def children : Form → List Form
  | .atom _ _ _ => []
  | .group _ items _ _ => items
  | .map entries _ _ => entryForms entries
  | .marked _ inner _ _ => [inner]

def annotations (form : Form) : List Form := entryForms form.metadata

structure Encloses (tokens : List Token) (form : Form) : Prop where
  nonempty : form.span.start < form.span.stop
  starts : ∃ token ∈ tokens, form.span.start = token.span.start
  stops : ∃ token ∈ tokens, form.span.stop = token.span.stop
  around : ∀ part ∈ form.children ++ form.annotations, part.span.Within form.span
  apart : (form.children.map span).Pairwise Span.Before

/-- The form encloses what is inside it, and so does each form there, down to those
in the metadata of metadata. -/
inductive Nested (tokens : List Token) : Form → Prop where
  | intro {form : Form} (here : form.Encloses tokens)
      (inside : ∀ part ∈ form.children ++ form.annotations, part.Nested tokens) : form.Nested tokens

variable {tokens others : List Token} {form : Form}

theorem Nested.encloses (nested : form.Nested tokens) : form.Encloses tokens := by
  cases nested
  assumption

theorem Nested.inside (nested : form.Nested tokens) :
    ∀ part ∈ form.children ++ form.annotations, part.Nested tokens := by
  cases nested
  assumption

theorem Nested.of_subset (nested : form.Nested tokens) (among : tokens ⊆ others) :
    form.Nested others := by
  induction nested with
  | intro here _ ih =>
    obtain ⟨nonempty, ⟨first, firstIn, starts⟩, ⟨last, lastIn, stops⟩, around, apart⟩ := here
    exact .intro ⟨nonempty, ⟨first, among firstIn, starts⟩, ⟨last, among lastIn, stops⟩, around, apart⟩ ih

theorem Nested.le_start (nested : form.Nested tokens) {bound : Nat}
    (early : ∀ token ∈ tokens, bound ≤ token.span.start) : bound ≤ form.span.start := by
  obtain ⟨token, member, starts⟩ := nested.encloses.starts
  rw [starts]
  exact early token member

theorem Nested.stop_le (nested : form.Nested tokens) {bound : Nat}
    (late : ∀ token ∈ tokens, token.span.stop ≤ bound) : form.span.stop ≤ bound := by
  obtain ⟨token, member, stops⟩ := nested.encloses.stops
  rw [stops]
  exact late token member

theorem Nested.madeUp (nested : form.Nested tokens) (leaf : Atom) :
    (Form.atom leaf form.span []).Nested tokens := by
  obtain ⟨nonempty, starts, stops, -, -⟩ := nested.encloses
  exact .intro ⟨nonempty, starts, stops, fun _ member => absurd member List.not_mem_nil, .nil⟩
    fun _ member => absurd member List.not_mem_nil

end Form

structure Solid (tokens : List Token) : Prop extends InOrder tokens where
  nonempty : ∀ token ∈ tokens, token.span.start < token.span.stop

theorem Solid.sublist {tokens others : List Token} (solid : Solid tokens)
    (among : others.Sublist tokens) : Solid others :=
  ⟨solid.toInOrder.sublist among, fun token member => solid.nonempty token (among.subset member)⟩

structure NestedForms (tokens : List Token) (forms : List Form) : Prop where
  each : ∀ form ∈ forms, form.Nested tokens
  apart : (forms.map Form.span).Pairwise Span.Before

section Forms

variable {tokens others : List Token} {forms more : List Form} {form : Form}

theorem NestedForms.nil : NestedForms tokens [] :=
  ⟨fun _ member => absurd member List.not_mem_nil, .nil⟩

theorem NestedForms.single (nested : form.Nested tokens) : NestedForms tokens [form] :=
  ⟨List.forall_mem_singleton.2 nested, List.pairwise_singleton _ _⟩

theorem NestedForms.of_subset (nested : NestedForms tokens forms) (among : tokens ⊆ others) :
    NestedForms others forms :=
  ⟨fun form member => (nested.each form member).of_subset among, nested.apart⟩

theorem NestedForms.append (first : NestedForms tokens forms) (second : NestedForms others more)
    (solid : Solid (tokens ++ others)) : NestedForms (tokens ++ others) (forms ++ more) := by
  have behind := (List.pairwise_append.1 solid.apart).2.2
  refine ⟨fun form member => ?_, ?_⟩
  · rcases List.mem_append.1 member with inFirst | inSecond
    · exact (first.each form inFirst).of_subset (List.subset_append_left _ _)
    · exact (second.each form inSecond).of_subset (List.subset_append_right _ _)
  · rw [List.map_append, List.pairwise_append]
    refine ⟨first.apart, second.apart, fun left leftIn right rightIn => ?_⟩
    obtain ⟨form, inFirst, rfl⟩ := List.mem_map.1 leftIn
    obtain ⟨other, inSecond, rfl⟩ := List.mem_map.1 rightIn
    have nested := first.each form inFirst
    have nestedOther := second.each other inSecond
    have disjoint : form.span.stop ≤ other.span.start :=
      nestedOther.le_start fun later laterIn => nested.stop_le fun earlier earlierIn =>
        behind earlier earlierIn later laterIn
    have width := nested.encloses.nonempty
    have otherWidth := nestedOther.encloses.nonempty
    exact ⟨disjoint, by omega, by omega⟩

end Forms

section Constructs

variable {tokens inner : List Token} {first : Token} {form : Form}

/-- A construct that begins with its own token nests if what is inside comes later
and stops no later than itself. -/
theorem Form.Nested.construct (solid : Solid (first :: tokens)) (plain : form.metadata = [])
    (among : inner ⊆ tokens) (children : NestedForms inner form.children)
    (starts : form.span.start = first.span.start)
    (stops : ∃ token ∈ tokens, form.span.stop = token.span.stop)
    (inTime : ∀ inner ∈ form.children.map span, inner.stop ≤ form.span.stop) :
    form.Nested (first :: tokens) := by
  have behind := (List.pairwise_cons.1 solid.apart).1
  have proper := solid.nonempty first List.mem_cons_self
  obtain ⟨last, lastIn, stops⟩ := stops
  have parts : form.children ++ form.annotations = form.children := by
    rw [annotations, plain]
    exact List.append_nil _
  refine .intro ⟨?_, ⟨first, List.mem_cons_self, starts⟩, ⟨last, List.mem_cons_of_mem _ lastIn, stops⟩,
    ?_, children.apart⟩ ?_
  · have later := behind last lastIn
    have lastProper := solid.nonempty last (List.mem_cons_of_mem _ lastIn)
    rw [starts, stops]
    omega
  · rw [parts]
    refine fun child member => ⟨?_, inTime _ (List.mem_map_of_mem member)⟩
    rw [starts]
    refine (children.each child member).le_start fun token tokenIn => ?_
    have later := behind token (among tokenIn)
    omega
  · rw [parts]
    exact fun child member => (children.each child member).of_subset
      fun token tokenIn => List.mem_cons_of_mem _ (among tokenIn)

theorem Form.Nested.bracketed {closing : Token} (solid : Solid (first :: (inner ++ [closing])))
    (plain : form.metadata = []) (children : NestedForms inner form.children)
    (spans : form.span = first.span.merge closing.span) : form.Nested (first :: (inner ++ [closing])) := by
  have closingIn : closing ∈ inner ++ [closing] := List.mem_append_right _ (List.mem_singleton_self _)
  have ordered := List.pairwise_cons.1 solid.apart
  have width := solid.nonempty closing (List.mem_cons_of_mem _ closingIn)
  rw [Span.merge_of_le (Nat.le_of_lt (solid.nonempty first List.mem_cons_self))
    (ordered.1 closing closingIn) (Nat.le_of_lt width)] at spans
  refine construct solid plain (List.subset_append_left _ _) children (by rw [spans])
    ⟨closing, closingIn, by rw [spans]⟩ (List.forall_mem_map.2 fun child member => ?_)
  rw [spans]
  refine (children.each child member).stop_le fun token tokenIn => ?_
  have before := (List.pairwise_append.1 ordered.2).2.2 token tokenIn closing (List.mem_singleton_self _)
  exact Nat.le_trans before (Nat.le_of_lt width)

theorem Form.Nested.merge_eq (nested : form.Nested inner) (solid : Solid (first :: tokens))
    (among : inner ⊆ tokens) : first.span.merge form.span = ⟨first.span.start, form.span.stop⟩ := by
  have behind := (List.pairwise_cons.1 solid.apart).1
  exact Span.merge_of_le (Nat.le_of_lt (solid.nonempty first List.mem_cons_self))
    (nested.le_start fun token tokenIn => behind token (among tokenIn))
    (Nat.le_of_lt nested.encloses.nonempty)

theorem Form.Nested.prefixed {target : Form} (solid : Solid (first :: tokens)) (plain : form.metadata = [])
    (nested : target.Nested tokens) (spans : form.span = first.span.merge target.span)
    (children : NestedForms tokens form.children)
    (inTime : ∀ inner ∈ form.children.map span, inner.stop ≤ target.span.stop) :
    form.Nested (first :: tokens) := by
  rw [nested.merge_eq solid (List.Subset.refl _)] at spans
  obtain ⟨last, lastIn, stops⟩ := nested.encloses.stops
  refine construct solid plain (List.Subset.refl _) children (by rw [spans])
    ⟨last, lastIn, by rw [spans, ← stops]⟩ ?_
  rw [spans]
  exact inTime

theorem span_qualifyKey (name : String) (key : Form) : (qualifyKey name key).span = key.span := by
  unfold qualifyKey
  split
  · split <;> rfl
  · rfl

theorem Form.Nested.qualified {key : Form} (nested : key.Nested tokens) (name : String) :
    (qualifyKey name key).Nested tokens := by
  unfold qualifyKey
  split
  · split
    · exact nested
    · exact nested.madeUp _
  · exact nested

theorem spans_qualified (name : String) (entries : List (Form × Form)) :
    (entryForms (entries.map fun entry => (qualifyKey name entry.1, entry.2))).map Form.span =
      (entryForms entries).map Form.span := by
  simp only [entryForms, List.flatMap_map, List.map_flatMap, List.map_cons, List.map_nil, span_qualifyKey]

theorem NestedForms.qualified {entries : List (Form × Form)}
    (nested : NestedForms tokens (entryForms entries))
    (name : String) : NestedForms tokens
      (entryForms (entries.map fun entry => (qualifyKey name entry.1, entry.2))) := by
  refine ⟨fun form member => ?_, spans_qualified name entries ▸ nested.apart⟩
  obtain ⟨qualified, qualifiedIn, same⟩ := mem_entryForms.1 member
  obtain ⟨entry, entryIn, rfl⟩ := List.mem_map.1 qualifiedIn
  rcases same with rfl | rfl
  · exact (nested.each entry.1 (mem_entryForms.2 ⟨entry, entryIn, .inl rfl⟩)).qualified name
  · exact nested.each entry.2 (mem_entryForms.2 ⟨entry, entryIn, .inr rfl⟩)

end Constructs

section Metadata

variable {tokens : List Token} {form description : Form} {entries : List (Form × Form)}

theorem children_withMetadata (start : Span) (entries : List (Form × Form)) (form : Form) :
    (form.withMetadata start entries).children = form.children := by
  cases form <;> rfl

theorem annotations_withMetadata (start : Span) (entries : List (Form × Form)) (form : Form) :
    (form.withMetadata start entries).annotations = form.annotations ++ entryForms entries := by
  cases form <;> exact List.flatMap_append

theorem Form.Nested.denoted (nested : description.Nested tokens)
    (denotes : Describes description entries) :
    ∀ part ∈ entryForms entries, part.Nested tokens ∧ part.span.Within description.span := by
  have whole : description.span.Within description.span := ⟨Nat.le_refl _, Nat.le_refl _⟩
  have alone {key value : Form} (made : entries = [(key, value)])
      (keyStands : key.Nested tokens ∧ key.span = description.span)
      (valueStands : value.Nested tokens ∧ value.span = description.span) :
      ∀ part ∈ entryForms entries, part.Nested tokens ∧ part.span.Within description.span := by
    intro part member
    rw [made] at member
    obtain ⟨entry, entryIn, same⟩ := mem_entryForms.1 member
    obtain rfl := List.mem_singleton.1 entryIn
    rcases same with rfl | rfl
    · exact ⟨keyStands.1, keyStands.2 ▸ whole⟩
    · exact ⟨valueStands.1, valueStands.2 ▸ whole⟩
  cases denotes with
  | symbol | string => exact alone rfl ⟨nested.madeUp _, rfl⟩ ⟨nested, rfl⟩
  | keyword => exact alone rfl ⟨nested, rfl⟩ ⟨nested.madeUp _, rfl⟩
  | map =>
    intro part member
    exact ⟨nested.inside part (List.mem_append_left _ member),
      nested.encloses.around part (List.mem_append_left _ member)⟩

theorem Form.Nested.annotated {token : Token} {first second : List Token}
    (solid : Solid (token :: (first ++ second))) (described : description.Nested first)
    (denotes : Describes description entries) (target : form.Nested second) :
    (form.withMetadata token.span entries).Nested (token :: (first ++ second)) := by
  have ordered := List.pairwise_cons.1 solid.apart
  have behind := (List.pairwise_append.1 ordered.2).2.2
  have proper := solid.nonempty token List.mem_cons_self
  obtain ⟨nonempty, -, ⟨last, lastIn, stops⟩, around, apart⟩ := target.encloses
  have spans : (form.withMetadata token.span entries).span = ⟨token.span.start, form.span.stop⟩ := by
    rw [span_withMetadata]
    exact target.merge_eq solid (List.subset_append_right _ _)
  have start : token.span.stop ≤ form.span.start :=
    target.le_start fun later laterIn => ordered.1 later (List.mem_append_right _ laterIn)
  have wider : form.span.Within ⟨token.span.start, form.span.stop⟩ :=
    ⟨by dsimp only; omega, Nat.le_refl _⟩
  have descriptionWithin : description.span.Within ⟨token.span.start, form.span.stop⟩ := by
    have early : token.span.stop ≤ description.span.start :=
      described.le_start fun later laterIn => ordered.1 later (List.mem_append_left _ laterIn)
    have inTime : description.span.stop ≤ form.span.start :=
      target.le_start fun later laterIn => described.stop_le fun earlier earlierIn =>
        behind earlier earlierIn later laterIn
    constructor <;> dsimp only <;> omega
  have parts : ∀ part ∈ (form.withMetadata token.span entries).children ++
      (form.withMetadata token.span entries).annotations,
      part ∈ form.children ++ form.annotations ∨ part ∈ entryForms entries := by
    intro part member
    rwa [children_withMetadata, annotations_withMetadata, ← List.append_assoc, List.mem_append] at member
  refine .intro ⟨?_, ⟨token, List.mem_cons_self, by rw [spans]⟩,
    ⟨last, List.mem_cons_of_mem _ (List.mem_append_right _ lastIn), by rw [spans, ← stops]⟩, ?_, ?_⟩ ?_
  · rw [spans]
    dsimp only
    omega
  · rw [spans]
    intro part member
    rcases parts part member with inForm | inEntries
    · exact (around part inForm).trans wider
    · exact ((described.denoted denotes part inEntries).2).trans descriptionWithin
  · rw [children_withMetadata]
    exact apart
  · intro part member
    rcases parts part member with inForm | inEntries
    · exact (target.inside part inForm).of_subset fun other otherIn =>
        List.mem_cons_of_mem _ (List.mem_append_right _ otherIn)
    · exact (described.denoted denotes part inEntries).1.of_subset fun other otherIn =>
        List.mem_cons_of_mem _ (List.mem_append_left _ otherIn)

end Metadata

/-- What tokens in order derive nests. -/
theorem Derives.nested {phrase : Phrase} {tokens : List Token} {forms : List Form}
    (derives : Derives features phrase tokens forms) (solid : Solid tokens) :
    NestedForms tokens forms := by
  induction derives with
  | @atom _ token leaf =>
    have width := solid.nonempty token List.mem_cons_self
    exact .single (.intro ⟨width, ⟨token, List.mem_cons_self, rfl⟩, ⟨token, List.mem_cons_self, rfl⟩,
      fun _ member => absurd member List.not_mem_nil, .nil⟩ fun _ member => absurd member List.not_mem_nil)
  | @group _ shape opening closing body forms _ _ _ ih =>
    have inner := ih (solid.sublist ((List.sublist_append_left _ _).cons _))
    exact .single (.bracketed solid rfl inner rfl)
  | map _ _ _ ih =>
    have inner := ih (solid.sublist ((List.sublist_append_left _ _).cons _))
    exact .single (.bracketed solid rfl inner rfl)
  | @marked _ token mark tokens form _ _ ih =>
    have inner := ih (solid.sublist (List.sublist_cons_self _ _))
    refine .single (.prefixed solid rfl (inner.each form List.mem_cons_self) rfl inner ?_)
    exact List.forall_mem_singleton.2 (Nat.le_refl _)
  | @metadata _ token first second description form entries _ _ denotes _ ihDescription ihTarget =>
    have described := ihDescription (solid.sublist ((List.sublist_append_left _ _).cons _))
    have target := ihTarget (solid.sublist ((List.sublist_append_right _ _).cons _))
    exact .single (.annotated solid (described.each description List.mem_cons_self) denotes
      (target.each form List.mem_cons_self))
  | @namespacedMap _ token tokens entries span metadata _ _ ih =>
    have inner := (ih (solid.sublist (List.sublist_cons_self _ _))).each _ List.mem_cons_self
    have children : NestedForms tokens (entryForms entries) :=
      ⟨fun child member => inner.inside child (List.mem_append_left _ member), inner.encloses.apart⟩
    refine .single (.prefixed solid rfl inner rfl (children.qualified token.spaceName) ?_)
    have moved := spans_qualified token.spaceName entries
    exact moved ▸ List.forall_mem_map.2 fun child member =>
      (inner.encloses.around child (List.mem_append_left _ member)).2
  | discard => exact .nil
  | @conditional _ token opening closing body _ selected _ _ _ _ selects ih =>
    have inner := ih (solid.sublist (((List.sublist_append_left _ _).cons _).cons _))
    cases selected with
    | none => exact .nil
    | some form => exact .single ((inner.each form selects.mem).of_subset fun other member =>
        List.mem_cons_of_mem _ (List.mem_cons_of_mem _ (List.mem_append_left _ member)))
  | splice _ _ _ _ selects spliced ih =>
    have inner := ih (solid.sublist (((List.sublist_append_left _ _).cons _).cons _))
    refine NestedForms.of_subset ?_ fun other member =>
      List.mem_cons_of_mem _ (List.mem_cons_of_mem _ (List.mem_append_left _ member))
    cases spliced with
    | nothing => exact .nil
    | list | vector =>
      have nested := inner.each _ selects.mem
      exact ⟨fun child member => nested.inside child (List.mem_append_left _ member),
        nested.encloses.apart⟩
    | form => exact .single (inner.each _ selects.mem)
  | nil => exact .nil
  | cons _ _ ihHead ihTail =>
    exact (ihHead (solid.sublist (List.sublist_append_left _ _))).append
      (ihTail (solid.sublist (List.sublist_append_right _ _))) solid
  | here _ ih => exact ih solid
  | later _ _ _ ih =>
    exact (ih (solid.sublist (List.sublist_append_right _ _))).of_subset (List.subset_append_right _ _)

def LexItem.token? : LexItem → Option Token
  | .token lexed => some lexed
  | .fault _ _ => none

def tokensOf (items : List LexItem) : List Token := items.filterMap LexItem.token?

theorem tokensOf_append (tokens : List Token) (rest : List LexItem) :
    tokensOf (lexedItems tokens ++ rest) = tokens ++ tokensOf rest := by
  induction tokens with
  | nil => rfl
  | cons token tokens ih => exact congrArg (token :: ·) ih

theorem eq_token_of_token? {item : LexItem} {token : Token} (isToken : item.token? = some token) :
    item = .token token := by
  cases item with
  | token lexed => exact congrArg LexItem.token (Option.some.inj isToken)
  | fault => cases isToken

theorem solid_lex (text : List Char) : Solid (tokensOf (lex text)) := by
  have laid := laid_lex text
  have nonempty : ∀ token ∈ tokensOf (lex text), token.span.start < token.span.stop := by
    intro token member
    obtain ⟨item, listed, isToken⟩ := List.mem_filterMap.1 member
    obtain rfl := eq_token_of_token? isToken
    exact (laid.within _ listed).2.1
  refine ⟨⟨List.Pairwise.filterMap _ (fun item other apart token isToken later isLater => ?_) laid.apart,
    fun token member => Nat.le_of_lt (nonempty token member)⟩, nonempty⟩
  obtain rfl := eq_token_of_token? isToken
  obtain rfl := eq_token_of_token? isLater
  exact apart

/-- The forms that are read nest, whatever faults stand between them. -/
theorem readOutcomes_nested (items : List LexItem) (solid : Solid (tokensOf items)) :
    NestedForms (tokensOf items) ((readOutcomes features size items).filterMap Except.toOption) := by
  cases read : nextForm? features size items with
  | none =>
    rw [readOutcomes_none read]
    exact .nil
  | some pair =>
    obtain ⟨outcome, rest⟩ := pair
    have shorter := nextForm?_rest read
    have among : (tokensOf rest).Sublist (tokensOf items) :=
      (nextForm?_suffix read).sublist.filterMap _
    have later := readOutcomes_nested rest (solid.sublist among)
    rw [readOutcomes_some read]
    cases outcome with
    | error fault => exact later.of_subset among.subset
    | ok form =>
      have accounted := nextForm?_accounted features size items
      rw [read] at accounted
      obtain ⟨tokens, rfl, derives⟩ := accounted
      rw [tokensOf_append] at solid ⊢
      exact (derives.nested (solid.sublist (List.sublist_append_left _ _))).append later solid
termination_by items.length

theorem toOption_mapError {ε ε' α : Type} (change : ε → ε') (result : Except ε α) :
    (result.mapError change).toOption = result.toOption := by
  cases result <;> rfl

/-- Spans nest properly in all that is read from a source, also where reading goes
on behind faults. Every form starts with a token and stops with one; the forms right
inside it lie within its span, each behind the one before; the keys and values of its
metadata lie within its span; the same holds of these forms in turn; and the forms
outside all others stand each behind the one before. -/
theorem read_forms_nest (features : Features) (source : String) :
    let tokens := tokensOf (lex source.toList)
    let forms := (readEach features source).filterMap Except.toOption
    (∀ form ∈ forms, form.Nested tokens) ∧ (forms.map Form.span).Pairwise Span.Before := by
  intro tokens forms
  have read : forms =
      (readOutcomes features (Text.width source.toList) (lex source.toList)).filterMap Except.toOption := by
    rw [← List.filterMap_congr fun outcome _ => toOption_mapError (ReadFault.locate source.toList) outcome]
    exact List.filterMap_map
  have nested := @readOutcomes_nested features (Text.width source.toList) _ (solid_lex source.toList)
  rw [← read] at nested
  exact ⟨nested.each, nested.apart⟩

end VarDoc
