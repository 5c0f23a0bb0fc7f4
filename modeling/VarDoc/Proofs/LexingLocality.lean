import VarDoc.Proofs.LosslessLexing
import VarDoc.Proofs.Printing

/-! How far lexing looks ahead. What has been cut into tokens stays cut like that
when the text behind it is replaced by another, as long as that one begins with a
character that ends tokens and no comment runs on into it. So a closing bracket
fixes every token up to itself, and a line feed every token before it. -/

set_option autoImplicit false

namespace VarDoc

open Pattern

variable {rest after front : List Char} {offset : Nat} {tokens : List Token}

/-- Before `rest`, the text is cut into longest matches that make the tokens. -/
inductive Cut (rest : List Char) : Nat → List Char → List Token → Prop where
  | nothing {offset : Nat} : Cut rest offset [] []
  | skips {offset : Nat} {lexeme more : List Char} {tokens : List Token}
      (longest : Longest (lexeme ++ (more ++ rest)) lexeme .skipped)
      (further : Cut rest (offset + Text.width lexeme) more tokens) :
      Cut rest offset (lexeme ++ more) tokens
  | token {offset : Nat} {lexeme more : List Char} {tokens : List Token} {pattern : Pattern}
      {kind : TokenKind} (longest : Longest (lexeme ++ (more ++ rest)) lexeme pattern)
      (makes : pattern.kind? = some kind)
      (further : Cut rest (offset + Text.width lexeme) more tokens) :
      Cut rest offset (lexeme ++ more) (Token.at kind lexeme offset :: tokens)

def EndsLine (text : List Char) : Prop := ∀ c ∈ text.head?, c = '\n'

theorem LexesAs.comment {mark body : List Char} (marks : mark = [';'] ∨ mark = ['#', '!'])
    (oneLine : '\n' ∉ body) (ends : EndsLine rest) : LexesAs (mark ++ body) offset rest [] := by
  have inLine : run (· != '\n') (body ++ rest) = body.length := by
    rw [run_append (by simpa [EndsLine] using ends), run_eq_length_iff]
    intro c member
    exact bne_iff_ne.2 fun same => oneLine (same ▸ member)
  have chosen : longest? (mark ++ body ++ rest) = some (.skipped, (mark ++ body).length) := by
    rcases marks with rfl | rfl
    · have reach : Pattern.skipped.reach (';' :: (body ++ rest)) = body.length + 1 := by
        rw [Pattern.reach, inLine, Nat.add_comm]
      have only : longest? (';' :: (body ++ rest)) = some (.skipped, _) :=
        longest?_of_only (by decide) (by omega) (by decide)
      rw [reach] at only
      exact only
    · have reach : Pattern.skipped.reach ('#' :: '!' :: (body ++ rest)) = body.length + 2 := by
        rw [Pattern.reach, inLine, Nat.add_comm]
      have only : longest? ('#' :: '!' :: (body ++ rest)) = some (.skipped, _) :=
        longest?_of_only_after_hash (by decide) (by omega) (by decide)
      rw [reach] at only
      exact only
  have nonempty : mark ++ body ≠ [] := by rcases marks with rfl | rfl <;> simp
  exact lexFrom_longest nonempty chosen offset

/-- A match that is the longest in a text is so in what is left of the text when
its end is taken away. -/
theorem Pattern.Longest.of_append {text lexeme : List Char} {pattern : Pattern}
    (longest : Longest (text ++ rest) lexeme pattern) (within : lexeme <+: text) :
    Longest text lexeme pattern where
  listed := longest.listed
  begins := within
  matched := longest.matched
  longest other listed shorter begins :=
    longest.longest other listed shorter (begins.trans (List.prefix_append text rest))
  preferred := longest.preferred

/-- What follows a cut may be replaced: neither a token nor a comment goes on
into it. -/
theorem Cut.lexesAs (cut : Cut rest offset front tokens) (ends : Ends after)
    (lines : EndsLine rest → EndsLine after) : LexesAs front offset after tokens := by
  induction cut with
  | nothing => exact .empty
  | @skips offset lexeme more tokens longest _ ih =>
    have nothing : LexesAs lexeme offset (more ++ after) [] := by
      rcases mem_skipped_cases longest.matched with gaps | ⟨mark, body, rfl, marks, oneLine⟩
      · exact .gaps (by simpa using gaps)
      · have lineEnds := lineEnds_of_longest marks oneLine longest
        apply LexesAs.comment marks oneLine
        cases more with
        | nil => exact lines lineEnds
        | cons c more => exact lineEnds
    exact nothing.append ih
  | @token offset lexeme more tokens pattern kind longest makes _ ih =>
    have isToken : pattern ≠ .skipped := by
      rintro rfl
      contradiction
    rw [← List.append_assoc] at longest
    have shorter := longest.of_append (List.prefix_append lexeme more)
    have chosen := longest?_append_ends ends shorter.longest?_eq isToken
    rw [List.append_assoc] at chosen
    have first : LexesAs lexeme offset (more ++ after) [Token.at kind lexeme offset] :=
      .token shorter.ne_nil ⟨pattern, chosen, makes⟩
    exact first.append ih

theorem Scanned.cut {text : List Char} {items : List LexItem}
    (scanned : Scanned offset text (lexedItems tokens ++ items)) :
    ∃ front rest, text = front ++ rest ∧ Cut rest offset front tokens ∧
      Scanned (offset + Text.width front) rest items ∧
      ∀ lexeme, ¬ Longest rest lexeme .skipped := by
  generalize whole : lexedItems tokens ++ items = all at scanned
  induction scanned generalizing tokens with
  | done =>
    obtain ⟨none, rfl⟩ := List.append_eq_nil_iff.1 whole
    obtain rfl : tokens = [] := List.map_eq_nil_iff.1 none
    refine ⟨[], [], rfl, .nothing, .done, fun lexeme longest => ?_⟩
    exact longest.ne_nil (List.prefix_nil.1 longest.begins)
  | @skips offset lexeme rest _ longest _ ih =>
    obtain ⟨front, later, rfl, cut, scanned, stops⟩ := ih whole
    refine ⟨lexeme ++ front, later, by rw [List.append_assoc], .skips longest cut, ?_, stops⟩
    rwa [Text.width_append, ← Nat.add_assoc]
  | @token offset lexeme rest others pattern kind longest makes further ih =>
    cases tokens with
    | nil =>
      obtain rfl : items = _ := whole
      refine ⟨[], _, rfl, .nothing, .token longest makes further, fun other skipped => ?_⟩
      obtain ⟨-, rfl⟩ := longest.unique skipped
      contradiction
    | cons token tokens =>
      obtain ⟨first, others⟩ := List.cons.inj whole
      obtain rfl := LexItem.token.inj first
      obtain ⟨front, later, rfl, cut, scanned, stops⟩ := ih others
      refine ⟨lexeme ++ front, later, by rw [List.append_assoc], .token longest makes cut, ?_, stops⟩
      rwa [Text.width_append, ← Nat.add_assoc]
  | @fault offset first covered rest others error unmatched told further ih =>
    cases tokens with
    | nil =>
      obtain rfl : items = _ := whole
      refine ⟨[], _, rfl, .nothing, .fault unmatched told further, fun lexeme longest => ?_⟩
      exact unmatched _ longest.listed lexeme longest.begins longest.matched
    | cons token tokens => cases (List.cons.inj whole).1

theorem lex_line {line : List Char} (lexed : lex line = lexedItems tokens) (more : List Char) :
    lex (line ++ '\n' :: more) = lexedItems tokens ++ lexFrom 0 (Text.width line + 1) more := by
  obtain ⟨items, scanned⟩ := exists_scanned 0 line
  obtain rfl : items = lexedItems tokens ++ [] := by
    rw [← scanned.lexFrom_eq, List.append_nil]
    exact lexed
  obtain ⟨front, rest, rfl, cut, further, stops⟩ := scanned.cut
  obtain rfl : rest = [] := by
    cases further with
    | done => rfl
    | skips longest => exact absurd longest (stops _)
  rw [List.append_nil, lex, cut.lexesAs (ends_of_gap (by decide) more) (by simp [EndsLine]),
    Nat.zero_add, lexFrom_gap (by decide)]
  rfl

/-- Tokens that end in a closing bracket are the same whatever follows it. -/
theorem lex_closed {text : List Char} {closing : Token} {items : List LexItem}
    {delimiter : Delimiter} (closes : closing.kind = .closes delimiter)
    (lexed : lex text = lexedItems (tokens ++ [closing]) ++ items) (more : List Char) :
    ∃ later, lex (text ++ more) = lexedItems (tokens ++ [closing]) ++ later := by
  obtain ⟨scan, scanned⟩ := exists_scanned 0 text
  obtain rfl : scan = lexedItems tokens ++ .token closing :: items := by
    rw [← scanned.lexFrom_eq, ← lex, lexed, lexedItems_append, List.append_assoc]
    rfl
  obtain ⟨front, rest, rfl, cut, further, stops⟩ := scanned.cut
  cases further with
  | skips longest => exact absurd longest (stops _)
  | @token _ lexeme rest _ pattern kind longest makes further =>
    obtain rfl : kind = .closes delimiter := closes
    have bracket : lexeme = delimiter.closeText.toList := by
      have only : ∀ other ∈ Pattern.all, other.kind? = some (.closes delimiter) →
          other = .fixed delimiter.closeText.toList (.closes delimiter) := by
        cases delimiter <;> decide
      obtain rfl := only pattern longest.listed makes
      exact Regex.mem_literal.1 longest.matched
    subst bracket
    refine ⟨lexFrom 0 (Text.width front + Text.width delimiter.closeText.toList) (rest ++ more), ?_⟩
    have ends := ends_close delimiter (rest ++ more)
    have notLine (line : EndsLine (delimiter.closeText.toList ++ rest)) :
        EndsLine (delimiter.closeText.toList ++ (rest ++ more)) := by
      cases delimiter <;> exact absurd (line _ rfl) (by decide)
    rw [List.append_assoc, List.append_assoc, lex, cut.lexesAs ends notLine,
      lexFrom_spelled delimiter.closeText_ne_nil (spelledBefore_close delimiter (rest ++ more))]
    simp [Token.at]

end VarDoc
