import VarDoc.Proofs.FormPlaces
import VarDoc.Proofs.LexingLocality
import VarDoc.Proofs.Relocation

/-! The text that a form spans. Without conditionals, a form that is read goes from
the start of its first token to the stop of its last, whatever marks, metadata and
discarded forms stand in between. That stretch of text is cut into the same tokens
when it stands alone, so it reads as this form and nothing else. -/

set_option autoImplicit false

namespace VarDoc

open Pattern

variable {features : Features}

section Spans

structure InOrder (tokens : List Token) : Prop where
  apart : tokens.Pairwise fun earlier later => earlier.span.stop ≤ later.span.start
  proper : ∀ token ∈ tokens, token.span.start ≤ token.span.stop

theorem InOrder.sublist {tokens others : List Token} (ordered : InOrder tokens)
    (among : others.Sublist tokens) : InOrder others :=
  ⟨ordered.apart.sublist among, fun token member => ordered.proper token (among.subset member)⟩

theorem inOrder_of_lexed {text : List Char} {tokens : List Token}
    (lexed : lex text = lexedItems tokens) : InOrder tokens := by
  have laid := laid_lex text
  rw [lexed] at laid
  refine ⟨List.pairwise_map.1 laid.apart, fun token member => ?_⟩
  have nonempty := (laid.within (.token token) (List.mem_map_of_mem member)).2.1
  exact Nat.le_of_lt nonempty

def Around (tokens : List Token) (span : Span) : Prop :=
  ∃ first last, tokens.head? = some first ∧ tokens.getLast? = some last ∧
    span = ⟨first.span.start, last.span.stop⟩

theorem Around.single (token : Token) : Around [token] token.span := ⟨token, token, rfl, rfl, rfl⟩

theorem Around.extend {token : Token} {skipped tokens : List Token} {span : Span}
    (around : Around tokens span) (ordered : InOrder (token :: (skipped ++ tokens))) :
    Around (token :: (skipped ++ tokens)) (token.span.merge span) := by
  obtain ⟨first, last, begins, ends, rfl⟩ := around
  have inTokens : first ∈ tokens := List.mem_of_head? begins
  have alsoInTokens : last ∈ tokens := List.mem_of_getLast? ends
  refine ⟨token, last, rfl, ?_, ?_⟩
  · rw [List.getLast?_cons, List.getLast?_append, ends]
    rfl
  · have behind := (List.pairwise_cons.1 ordered.apart).1
    have toFirst := behind first (List.mem_append_right skipped inTokens)
    have toLast := behind last (List.mem_append_right skipped alsoInTokens)
    have proper := ordered.proper token List.mem_cons_self
    have lastProper := ordered.proper last
      (List.mem_cons_of_mem _ (List.mem_append_right skipped alsoInTokens))
    simp only [Span.merge, Span.mk.injEq]
    omega

def Unconditional (tokens : List Token) : Prop :=
  ∀ token ∈ tokens, ∀ splicing, token.kind ≠ .conditional splicing

/-- What the forms of a phrase span: an item all its tokens, one form all but those
that are skipped before it. -/
def Phrase.Spans : Phrase → List Token → List Form → Prop
  | .item _, tokens, forms => ∀ form ∈ forms, Around tokens form.span
  | .one, tokens, forms =>
    ∀ form ∈ forms, ∃ skipped stretch, tokens = skipped ++ stretch ∧ Around stretch form.span
  | .items _, _, _ => True

theorem Phrase.Spans.extend {token : Token} {before tokens : List Token} {form : Form}
    (spans : Phrase.one.Spans tokens [form]) (ordered : InOrder (token :: (before ++ tokens))) :
    Around (token :: (before ++ tokens)) (token.span.merge form.span) := by
  obtain ⟨skipped, stretch, rfl, around⟩ := spans form List.mem_cons_self
  rw [← List.append_assoc] at ordered ⊢
  exact around.extend ordered

theorem Derives.spans {phrase : Phrase} {tokens : List Token} {forms : List Form}
    (derives : Derives features phrase tokens forms) (ordered : InOrder tokens)
    (unconditional : Unconditional tokens) : phrase.Spans tokens forms := by
  -- Only a conditional hands on a form from inside its brackets; every other construct
  -- begins with its own token and stops where the last form or bracket in it does.
  induction derives with
  | @atom _ token => exact List.forall_mem_singleton.2 (.single token)
  | @group _ _ _ closing =>
    exact List.forall_mem_singleton.2 ((Around.single closing).extend ordered)
  | @map _ _ closing =>
    exact List.forall_mem_singleton.2 ((Around.single closing).extend ordered)
  | marked _ _ ih | namespacedMap _ _ ih =>
    have inner := ih (ordered.sublist (List.sublist_cons_self _ _))
      fun other member => unconditional other (List.mem_cons_of_mem _ member)
    exact List.forall_mem_singleton.2 (@Phrase.Spans.extend _ [] _ _ inner ordered)
  | @metadata _ token first second description form entries _ _ _ _ _ ih =>
    have inner := ih (ordered.sublist ((List.sublist_append_right _ _).cons _))
      fun other member => unconditional other (List.mem_cons_of_mem _ (List.mem_append_right _ member))
    refine List.forall_mem_singleton.2 ?_
    rw [span_withMetadata]
    exact inner.extend ordered
  | discard => exact fun _ member => absurd member List.not_mem_nil
  | conditional marks => exact absurd marks (unconditional _ List.mem_cons_self _)
  | splice marks => exact absurd marks (unconditional _ List.mem_cons_self _)
  | nil => trivial
  | cons => trivial
  | @here tokens form _ ih =>
    exact fun form member => ⟨[], tokens, rfl, ih ordered unconditional form member⟩
  | @later skipped tokens _ _ _ _ ih =>
    intro form member
    obtain ⟨before, stretch, rfl, around⟩ := ih (ordered.sublist (List.sublist_append_right _ _))
      (fun other found => unconditional other (List.mem_append_right _ found)) form member
    exact ⟨skipped ++ before, stretch, by rw [List.append_assoc], around⟩

/-- Every form of a program is an item that some of its tokens derive, next to one
another. -/
theorem Derives.exists_item {tokens : List Token} {forms : List Form}
    (derives : Derives features (.items false) tokens forms) {form : Form} (member : form ∈ forms) :
    ∃ before stretch after, tokens = before ++ stretch ++ after ∧
      Derives features (.item false) stretch [form] := by
  generalize phrase : Phrase.items false = kind at derives
  induction derives with
  | nil => cases member
  | @cons _ first rest forms others head _ _ ih =>
    cases phrase
    rcases List.mem_append.1 member with inFirst | inRest
    · have single : forms.length = 1 :=
        Nat.le_antisymm head.length_le_one (List.length_pos_of_mem inFirst)
      obtain ⟨other, rfl⟩ := List.length_eq_one_iff.1 single
      obtain rfl := List.mem_singleton.1 inFirst
      exact ⟨[], first, rest, rfl, head⟩
    · obtain ⟨before, stretch, after, rfl, item⟩ := ih inRest rfl
      exact ⟨first ++ before, stretch, after, by simp only [List.append_assoc], item⟩
  | _ => cases phrase

end Spans

section Cutting

theorem Cut.append {rest front more : List Char} {offset : Nat} {tokens others : List Token}
    (first : Cut (more ++ rest) offset front tokens)
    (second : Cut rest (offset + Text.width front) more others) :
    Cut rest offset (front ++ more) (tokens ++ others) := by
  induction first with
  | nothing => exact second
  | @skips offset lexeme between tokens longest _ ih =>
    rw [Text.width_append, ← Nat.add_assoc] at second
    rw [← List.append_assoc between] at longest
    rw [List.append_assoc]
    exact .skips longest (ih second)
  | @token offset lexeme between tokens pattern kind longest makes _ ih =>
    rw [Text.width_append, ← Nat.add_assoc] at second
    rw [← List.append_assoc between] at longest
    rw [List.append_assoc]
    exact .token longest makes (ih second)

theorem Scanned.starts {offset : Nat} {text : List Char} {item : LexItem} {items : List LexItem}
    (scanned : Scanned offset text (item :: items))
    (unskipped : ∀ lexeme, ¬ Longest text lexeme .skipped) : item.span.start = offset := by
  cases scanned with
  | skips longest => exact absurd longest (unskipped _)
  | token | fault => rfl

/-- Tokens that stand next to one another are all that their stretch of text is
lexed as when it stands alone. -/
theorem lex_stretch {text : List Char} {before stretch after : List Token}
    (lexed : lex text = lexedItems (before ++ stretch ++ after)) {span : Span}
    (around : Around stretch span) :
    ∃ front body rest, text = front ++ body ++ rest ∧
      span = ⟨Text.width front, Text.width front + Text.width body⟩ ∧
      lexFrom 0 (Text.width front) body = lexedItems stretch := by
  obtain ⟨first, last, begins, ends, rfl⟩ := around
  obtain ⟨inner, rfl⟩ := List.getLast?_eq_some_iff.1 ends
  obtain ⟨items, scanned⟩ := exists_scanned 0 text
  obtain rfl : items = lexedItems before ++ (lexedItems inner ++ .token last :: lexedItems after) := by
    rw [← scanned.lexFrom_eq, ← lex, lexed]
    simp
  obtain ⟨front, behind, rfl, -, further, unskipped⟩ := scanned.cut
  rw [Nat.zero_add] at further
  have start : first.span.start = Text.width front := by
    cases inner with
    | nil =>
      obtain rfl := Option.some.inj begins
      exact further.starts unskipped
    | cons token inner =>
      obtain rfl := Option.some.inj begins
      exact further.starts unskipped
  obtain ⟨middle, rest, rfl, cut, further, unskipped⟩ := further.cut
  cases further with
  | skips longest => exact absurd longest (unskipped _)
  | @token _ lexeme rest _ pattern kind longest makes _ =>
    refine ⟨front, middle ++ lexeme, rest, by simp only [List.append_assoc], ?_, ?_⟩
    · rw [start, Text.width_append, ← Nat.add_assoc]
    · have lastCut : Cut rest (Text.width front + Text.width middle) (lexeme ++ [])
          [Token.at kind lexeme (Text.width front + Text.width middle)] :=
        .token longest makes .nothing
      rw [List.append_nil] at lastCut
      have alone : LexesAs (middle ++ lexeme) (Text.width front) [] (inner ++ [_]) :=
        (cut.append lastCut).lexesAs (by simp [Ends]) (by simp [EndsLine])
      rw [LexesAs, List.append_nil, lexFrom, List.append_nil] at alone
      exact alone

end Cutting

def Relocation.backward (distance : Nat) : Relocation where
  place span := ⟨span.start - distance, span.stop - distance⟩
  place_merge left right := by
    simp only [Span.merge, Span.mk.injEq]
    omega

theorem Token.backward_forward (distance : Nat) (token : Token) :
    (token.relocated (.forward distance)).relocated (.backward distance) = token := by
  simp only [Token.relocated, Relocation.forward, Relocation.backward, Nat.add_sub_cancel]

theorem exists_relocated {move : Relocation} {items : List LexItem} {tokens : List Token}
    (same : items.map (LexItem.relocated move) = lexedItems tokens) :
    ∃ others, items = lexedItems others ∧ others.map (Token.relocated move) = tokens := by
  induction items generalizing tokens with
  | nil =>
    obtain rfl := List.map_eq_nil_iff.1 same.symm
    exact ⟨[], rfl, rfl⟩
  | cons item items ih =>
    cases tokens with
    | nil => cases same
    | cons token tokens =>
      obtain ⟨first, rest⟩ := List.cons.inj same
      obtain ⟨others, rfl, rfl⟩ := ih rest
      cases item with
      | fault => cases first
      | token lexed =>
        obtain rfl := LexItem.token.inj first
        exact ⟨lexed :: others, rfl, rfl⟩

theorem Derives.exists_backward {tokens : List Token} {form : Form} {distance : Nat}
    (item : Derives features (.item false) (tokens.map (Token.relocated (.forward distance))) [form]) :
    ∃ alone, Derives features (.item false) tokens [alone] ∧
      alone.relocated (.forward distance) = form := by
  have moved := item.relocated (.backward distance)
  rw [List.map_map, Function.comp_def] at moved
  simp only [Token.backward_forward, List.map_id'] at moved
  -- Moving back cuts off below zero, but the way forward leads to what was derived there.
  have again := moved.relocated (.forward distance)
  exact ⟨_, moved, List.singleton_inj.1 (again.single.unique item.single)⟩

/-- Without conditionals, the text that a form spans reads alone as this form, whose
spans have moved back to where the text begins. -/
theorem spanned_text_reads_alone {source : String} {forms : List Form}
    (read : readAll features source = .ok forms)
    (unconditional : ∀ token, .token token ∈ lex source.toList →
      ∀ splicing, token.kind ≠ .conditional splicing)
    {form : Form} (member : form ∈ forms) :
    ∃ body alone, Text.slice form.span.start form.span.stop source.toList = some body ∧
      readAll features (String.ofList body) = .ok [alone] ∧
      alone.relocated (.forward form.span.start) = form := by
  obtain ⟨tokens, lexed, derives⟩ := derives_of_readOutcomes (readAll_eq_ok_iff.1 read)
  obtain ⟨before, stretch, after, rfl, item⟩ := derives.exists_item member
  have among : stretch.Sublist (before ++ stretch ++ after) :=
    (List.sublist_append_right before stretch).trans (List.sublist_append_left _ after)
  have unmarked : Unconditional stretch := by
    intro token inStretch
    apply unconditional token
    rw [lexed]
    exact List.mem_map_of_mem (among.subset inStretch)
  have around := item.spans ((inOrder_of_lexed lexed).sublist among) unmarked form List.mem_cons_self
  obtain ⟨front, body, rest, whole, span, alone⟩ := lex_stretch lexed around
  rw [← Nat.zero_add (Text.width front), lexFrom_forward] at alone
  obtain ⟨tokens, lexedAlone, rfl⟩ := exists_relocated alone
  obtain ⟨moved, itemAlone, same⟩ := item.exists_backward
  refine ⟨body, moved, ?_, ?_, ?_⟩
  · rw [whole, span, Text.slice_append]
  · rw [readAll_eq_ok_iff, String.toList_ofList, lex, lexedAlone]
    exact readOutcomes_of_derives itemAlone.single
  · rw [span, same]

/-- A form behind a wide character, with metadata, a discarded form, a tag and a
namespaced map inside its span. -/
theorem marked_vector_reads_alone :
    let source := "é ^:k #_x [#t 'c #:n\x7b:a 1\x7d] ;d"
    ∃ forms form, readAll ["clj"] source = .ok forms ∧
      (∀ token, .token token ∈ lex source.toList → ∀ splicing, token.kind ≠ .conditional splicing) ∧
      form ∈ forms ∧ form.span = ⟨3, 28⟩ ∧
      ∃ alone, readAll ["clj"] "^:k #_x [#t 'c #:n\x7b:a 1\x7d]" = .ok [alone] ∧
        alone.relocated (.forward 3) = form := by
  intro source
  have seen : (readAll ["clj"] source).toOption.any (fun forms =>
      forms[1]?.any fun form => form.span == ⟨3, 28⟩) = true := by
    decide +kernel
  have kinds : (tokenize source.toList).toOption.any (fun tokens => tokens.all fun token =>
      token.kind != .conditional false && token.kind != .conditional true) = true := by
    decide +kernel
  obtain ⟨forms, read, seen⟩ := (Option.any_eq_true _ _).1 seen
  obtain ⟨form, found, spans⟩ := (Option.any_eq_true _ _).1 seen
  obtain ⟨tokens, lexed, kinds⟩ := (Option.any_eq_true _ _).1 kinds
  have read := eq_ok_of_toOption read
  have span : form.span = ⟨3, 28⟩ := beq_iff_eq.1 spans
  have unconditional : ∀ token, .token token ∈ lex source.toList →
      ∀ splicing, token.kind ≠ .conditional splicing := by
    intro token member splicing
    rw [tokenize_eq_ok_iff.1 (eq_ok_of_toOption lexed), lexedItems, List.mem_map] at member
    obtain ⟨other, listed, same⟩ := member
    obtain rfl := LexItem.token.inj same
    have kind := List.all_eq_true.1 kinds other listed
    cases splicing <;> simp_all
  have member := List.mem_of_getElem? found
  obtain ⟨body, alone, sliced, reads, same⟩ := spanned_text_reads_alone read unconditional member
  rw [span] at sliced same
  have text : Text.slice 3 28 source.toList = some "^:k #_x [#t 'c #:n\x7b:a 1\x7d]".toList := by
    decide +kernel
  obtain rfl := Option.some.inj (text.symm.trans sliced)
  exact ⟨forms, form, read, unconditional, member, span, alone, reads, same⟩

end VarDoc
