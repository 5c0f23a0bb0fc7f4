import VarDoc.Proofs.LosslessLexing
import VarDoc.Proofs.Printable
import VarDoc.Proofs.ReaderGrammar

/-! Where forms stand. Every form that is read, and every item of its lists and
vectors, is derived from tokens that follow one another in the text, and its span
starts where the first of them does. -/

set_option autoImplicit false

namespace VarDoc

variable {features : Features}

def Form.items : Form → List Form
  | .group _ items _ _ => items
  | _ => []

def Sequential (tokens : List Token) : Prop :=
  tokens.Pairwise fun earlier later => earlier.span.start ≤ later.span.start

/-- The form is an item that some of the tokens derive, next to one another, and
its span starts with the first of them. -/
def Form.Stretches (features : Features) (tokens : List Token) (form : Form) : Prop :=
  ∃ before first stretch after collecting, tokens = before ++ first :: stretch ++ after ∧
    form.span.start = first.span.start ∧
    Derives features (.item collecting) (first :: stretch) [form]

inductive Form.Grown (features : Features) (tokens : List Token) : Form → Prop where
  | intro {form : Form} (here : form.Stretches features tokens)
      (inside : ∀ item ∈ form.items, item.Grown features tokens) : form.Grown features tokens

theorem Form.Stretches.within {outer tokens behind : List Token} {form : Form}
    (stretches : form.Stretches features tokens) :
    form.Stretches features (outer ++ tokens ++ behind) := by
  obtain ⟨before, first, stretch, after, collecting, split, starts, derives⟩ := stretches
  refine ⟨outer ++ before, first, stretch, after ++ behind, collecting, ?_, starts, derives⟩
  rw [split]
  simp only [List.append_assoc, List.cons_append]

theorem Form.Grown.within {outer tokens behind : List Token} {form : Form}
    (grown : form.Grown features tokens) : form.Grown features (outer ++ tokens ++ behind) := by
  induction grown with
  | intro here _ ih => exact .intro here.within ih

theorem Form.Grown.after {outer tokens : List Token} {form : Form}
    (grown : form.Grown features tokens) : form.Grown features (outer ++ tokens) := by
  have moved := @Form.Grown.within _ outer tokens [] _ grown
  rwa [List.append_nil] at moved

theorem Form.Grown.start_mem {tokens : List Token} {form : Form} (grown : form.Grown features tokens) :
    ∃ token ∈ tokens, form.span.start = token.span.start := by
  obtain ⟨⟨before, first, stretch, after, collecting, split, starts, -⟩, -⟩ := grown
  exact ⟨first, by simp [split], starts⟩

theorem start_merge {token : Token} {tokens : List Token} (sequential : Sequential (token :: tokens))
    {span : Span} {other : Token} (member : other ∈ tokens) (starts : span.start = other.span.start) :
    (token.span.merge span).start = token.span.start := by
  have later := (List.pairwise_cons.1 sequential).1 other member
  rw [Span.merge, starts]
  exact Nat.min_eq_left later

theorem Form.Stretches.whole {first : Token} {stretch : List Token} {form : Form} {collecting : Bool}
    (starts : form.span.start = first.span.start)
    (derives : Derives features (.item collecting) (first :: stretch) [form]) :
    form.Stretches features (first :: stretch) :=
  ⟨[], first, stretch, [], collecting, by rw [List.nil_append, List.append_nil], starts, derives⟩

theorem items_withMetadata (start : Span) (entries : List (Form × Form)) (form : Form) :
    (form.withMetadata start entries).items = form.items := by
  cases form <;> rfl

theorem span_withMetadata (start : Span) (entries : List (Form × Form)) (form : Form) :
    (form.withMetadata start entries).span = start.merge form.span := by
  cases form <;> rfl

/-- All that is derived stands on tokens of its own. -/
theorem Derives.grown {phrase : Phrase} {tokens : List Token} {forms : List Form}
    (derives : Derives features phrase tokens forms) (sequential : Sequential tokens) :
    ∀ form ∈ forms, form.Grown features tokens := by
  -- What takes up all its tokens is a stretch of its own; what only hands on the forms inside
  -- it keeps their stretches, which lie further inside now.
  induction derives with
  | @atom collecting token leaf denotes =>
    rw [List.forall_mem_singleton]
    exact .intro (.whole rfl (@Derives.atom _ collecting _ _ denotes)) nofun
  | @group collecting shape opening closing body forms opens inside closes ih =>
    have inner := ih ((List.pairwise_cons.1 sequential).2.sublist (List.sublist_append_left _ _))
    rw [List.forall_mem_singleton]
    have starts := start_merge sequential (List.mem_append_right body (List.mem_singleton_self closing))
      rfl
    refine .intro (.whole starts (@Derives.group _ collecting _ _ _ _ _ opens inside closes)) ?_
    intro item member
    exact @Form.Grown.within _ [opening] _ [closing] _ (inner item member)
  | @map collecting opening closing body entries opens inside closes ih =>
    rw [List.forall_mem_singleton]
    have starts := start_merge sequential (List.mem_append_right body (List.mem_singleton_self closing))
      rfl
    exact .intro (.whole starts (@Derives.map _ collecting _ _ _ _ opens inside closes)) nofun
  | @marked collecting token mark tokens form marks inner ih =>
    rw [List.forall_mem_singleton]
    obtain ⟨other, member, same⟩ :=
      (ih (List.pairwise_cons.1 sequential).2 form List.mem_cons_self).start_mem
    have starts := start_merge sequential member same
    exact .intro (.whole starts (@Derives.marked _ collecting _ _ _ _ marks inner)) nofun
  | @metadata collecting token first second description form entries marks described denotes target
      _ ih =>
    rw [List.forall_mem_singleton]
    have grown := ih ((List.pairwise_cons.1 sequential).2.sublist (List.sublist_append_right _ _)) form
      List.mem_cons_self
    obtain ⟨other, member, same⟩ := grown.start_mem
    have starts := start_merge sequential (List.mem_append_right first member) same
    rw [← span_withMetadata token.span entries] at starts
    refine .intro (.whole starts (@Derives.metadata _ collecting _ _ _ _ _ _ marks described denotes target)) ?_
    rw [items_withMetadata]
    intro item found
    obtain ⟨-, inside⟩ := grown
    exact @Form.Grown.after _ (token :: first) _ _ (inside item found)
  | @namespacedMap collecting token tokens entries span metadata marks inner ih =>
    rw [List.forall_mem_singleton]
    obtain ⟨other, member, same⟩ :=
      (ih (List.pairwise_cons.1 sequential).2 _ List.mem_cons_self).start_mem
    have starts := start_merge sequential member same
    exact .intro (.whole starts (@Derives.namespacedMap _ collecting _ _ _ _ _ marks inner)) nofun
  | discard => exact fun form member => absurd member List.not_mem_nil
  | @conditional _ token opening closing _ _ _ _ _ _ _ selects ih =>
    have inner := ih ((List.pairwise_cons.1 (List.pairwise_cons.1 sequential).2).2.sublist
      (List.sublist_append_left _ _))
    intro form member
    rw [Option.mem_toList.1 member] at selects
    exact @Form.Grown.within _ [token, opening] _ [closing] _ (inner form selects.mem)
  | @splice token opening closing _ _ _ _ _ _ _ _ selects spliced ih =>
    have inner := ih ((List.pairwise_cons.1 (List.pairwise_cons.1 sequential).2).2.sublist
      (List.sublist_append_left _ _))
    intro item member
    apply @Form.Grown.within _ [token, opening] _ [closing]
    cases spliced with
    | nothing => cases member
    | list | vector =>
      obtain ⟨-, inside⟩ := inner _ selects.mem
      exact inside item member
    | form =>
      rw [List.mem_singleton.1 member]
      exact inner _ selects.mem
  | nil => exact fun form member => absurd member List.not_mem_nil
  | cons _ _ first rest =>
    obtain ⟨before, after, -⟩ := List.pairwise_append.1 sequential
    intro form member
    rcases List.mem_append.1 member with inFirst | inRest
    · exact @Form.Grown.within _ [] _ _ _ (first before form inFirst)
    · exact (rest after form inRest).after
  | here _ ih => exact ih sequential
  | later _ _ _ ih =>
    exact fun form member => (ih (List.pairwise_append.1 sequential).2.1 form member).after

/-- The form is derived from tokens of the text that follow one another, the
first of which begins where the front of the text ends. -/
def Form.StandsAfter (features : Features) (text front : List Char) (form : Form) : Prop :=
  ∃ back before first stretch after collecting, text = front ++ back ∧
    lex text = lexedItems (before ++ first :: stretch ++ after) ∧
    first.span.start = Text.width front ∧
    Derives features (.item collecting) (first :: stretch) [form]

theorem sequential_of_lexed {text : List Char} {tokens : List Token}
    (lexed : lex text = lexedItems tokens) : Sequential tokens := by
  have laid := laid_lex text
  have apart := laid.apart
  have within := laid.within
  rw [lexed, lexedItems] at apart within
  rw [List.pairwise_map] at apart
  refine apart.imp_of_mem fun {earlier later} member _ ordered => ?_
  have nonempty := (within (.token earlier) (List.mem_map_of_mem member)).2.1
  simp only [LexItem.span] at nonempty ordered
  omega

theorem exists_front {text : List Char} {before after : List LexItem} {item : LexItem}
    (lexed : lex text = before ++ item :: after) :
    ∃ front back, text = front ++ back ∧ item.span.start = Text.width front := by
  have laid := laid_lex text
  rw [lexed] at laid
  obtain ⟨head, gap, rest, whole, -, stops, -⟩ := laid.blanks
  rw [List.nil_append] at whole
  exact ⟨head ++ gap, rest, whole, stops.symm⟩

theorem Form.Stretches.standsAfter {text : List Char} {tokens : List Token} {form : Form}
    (lexed : lex text = lexedItems tokens) (stretches : form.Stretches features tokens) :
    ∃ front, form.StandsAfter features text front ∧ form.span.start = Text.width front := by
  obtain ⟨before, first, stretch, after, collecting, rfl, starts, derives⟩ := stretches
  have split : lex text = lexedItems before ++ .token first :: lexedItems (stretch ++ after) := by
    rw [lexed]
    simp [lexedItems]
  obtain ⟨front, back, whole, width⟩ := exists_front split
  exact ⟨front, ⟨back, before, first, stretch, after, collecting, whole, lexed, width, derives⟩,
    starts.trans width⟩

/-- Forms that are read, and their items, stand in the text where their spans
start. -/
theorem standsAfter_of_readAll {text : String} {forms : List Form}
    (read : readAll features text = .ok forms) {form place : Form} (member : form ∈ forms)
    (within : place = form ∨ place ∈ form.items) :
    ∃ front, place.StandsAfter features text.toList front ∧ place.span.start = Text.width front := by
  obtain ⟨tokens, lexed, derives⟩ := derives_of_readOutcomes (readAll_eq_ok_iff.1 read)
  obtain ⟨here, inside⟩ := derives.grown (sequential_of_lexed lexed) form member
  rcases within with rfl | inner
  · exact here.standsAfter lexed
  · obtain ⟨there, -⟩ := inside place inner
    exact there.standsAfter lexed

end VarDoc
