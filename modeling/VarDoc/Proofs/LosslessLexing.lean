import VarDoc.Proofs.LongestMatch
import VarDoc.Proofs.TextPositions

/-! Lexing loses no text. The items stand apart from one another, in order, and
each covers what it says it does. Before, between and after them there is
nothing but gaps and comments. A string or regex that is never closed is found
just where the scan comes to one behind which every quote is escaped; it takes
the rest of the text, so that no item follows. -/

set_option autoImplicit false

namespace VarDoc

open Pattern

/-- Text that makes no item: gaps, and comments that go on to the end of their
line. What follows the text is given as well, for a line may end there. -/
inductive Blanks : List Char → List Char → Prop where
  | nothing {after : List Char} : Blanks [] after
  | gap {c : Char} {rest after : List Char} (separates : isGap c = true)
      (more : Blanks rest after) : Blanks (c :: rest) after
  | comment {mark body rest after : List Char} (marks : mark = [';'] ∨ mark = ['#', '!'])
      (inLine : '\n' ∉ body) (lineEnds : ∀ c ∈ (rest ++ after).head?, c = '\n')
      (more : Blanks rest after) : Blanks (mark ++ body ++ rest) after

def trailingBackslashes (text : List Char) : Nat := (text.reverse.takeWhile (· == '\\')).length

/-- Every quote in the text is escaped: an odd number of backslashes stands
right before it. -/
def Unclosed (body : List Char) : Prop :=
  ∀ before after, body = before ++ '"' :: after → trailingBackslashes before % 2 = 1

def LexError.opening? : LexError → Option (List Char)
  | .unexpected _ => none
  | .openString => some ['"']
  | .openRegex => some ['#', '"']

def LexItem.Covers : LexItem → List Char → Prop
  | .token lexed, covered => lexed.lexeme = String.ofList covered
  | .fault (.unexpected c) _, covered => covered = [c]
  | .fault error _, covered =>
    ∃ opening body, error.opening? = some opening ∧ covered = opening ++ body ∧ Unclosed body

def BeginsLiteral (text : List Char) : Prop :=
  ∃ (error : LexError) (opening : List Char), error.opening? = some opening ∧ opening <+: text

/-- The scan of a text comes to where the first part ends and the second begins:
after the longest match at a place it comes to, or after a character there that
begins no match. -/
inductive Reached (text : List Char) : List Char → List Char → Prop where
  | start : Reached text [] text
  | matched {front lexeme rest : List Char} {pattern : Pattern}
      (reached : Reached text front (lexeme ++ rest))
      (longest : Longest (lexeme ++ rest) lexeme pattern) : Reached text (front ++ lexeme) rest
  | unexpected {front rest : List Char} {c : Char} (reached : Reached text front (c :: rest))
      (unmatched : Unmatched (c :: rest)) (plain : ¬ BeginsLiteral (c :: rest)) :
      Reached text (front ++ [c]) rest

section Escapes

theorem trailingBackslashes_cons {c : Char} (plain : c ≠ '\\') (text : List Char) :
    trailingBackslashes (c :: text) = trailingBackslashes text := by
  have stops : [c].takeWhile (· == '\\') = [] := by simp [plain]
  rw [trailingBackslashes, trailingBackslashes, List.reverse_cons, List.takeWhile_append, stops]
  split
  next whole => rw [List.append_nil, whole, List.length_reverse]
  next => rfl

theorem trailingBackslashes_escape (c : Char) (text : List Char) :
    trailingBackslashes ('\\' :: c :: text) % 2 = trailingBackslashes text % 2 := by
  rw [trailingBackslashes, trailingBackslashes, List.reverse_cons, List.reverse_cons,
    List.append_assoc, List.takeWhile_append]
  split
  next whole =>
    -- Only backslashes stand behind the escape, which is none of them or two.
    by_cases backslash : c = '\\'
    · simp [backslash, whole]
    · simp [backslash, whole]
  next => rfl

theorem unclosed_cons {c : Char} (quote : c ≠ '"') (backslash : c ≠ '\\') (body : List Char) :
    Unclosed (c :: body) ↔ Unclosed body := by
  constructor
  · intro unclosed before after split
    rw [← trailingBackslashes_cons backslash]
    exact unclosed (c :: before) after (by rw [split, List.cons_append])
  · intro unclosed before after split
    cases before with
    | nil => exact absurd (List.cons.inj split).1 quote
    | cons d before =>
      obtain ⟨rfl, rest⟩ := List.cons.inj split
      rw [trailingBackslashes_cons backslash]
      exact unclosed before after rest

theorem unclosed_escape (c : Char) (body : List Char) :
    Unclosed ('\\' :: c :: body) ↔ Unclosed body := by
  constructor
  · intro unclosed before after split
    rw [← trailingBackslashes_escape c]
    exact unclosed ('\\' :: c :: before) after (by rw [split, List.cons_append, List.cons_append])
  · intro unclosed before after split
    match before with
    | [] => exact absurd (List.cons.inj split).1 (by decide)
    | [d] =>
      obtain ⟨rfl, -⟩ := List.cons.inj split
      rfl
    | d :: e :: before =>
      obtain ⟨rfl, more⟩ := List.cons.inj split
      obtain ⟨rfl, rest⟩ := List.cons.inj more
      rw [trailingBackslashes_escape]
      exact unclosed before after rest

theorem closingQuote_eq_none_iff (body : List Char) : closingQuote body = none ↔ Unclosed body := by
  fun_induction closingQuote body with
  | case1 => exact ⟨fun _ before after split => by simp at split, fun _ => rfl⟩
  | case2 rest =>
    refine iff_of_false (Option.some_ne_none _) fun unclosed => ?_
    exact absurd (unclosed [] rest rfl) (by decide)
  | case3 c rest ih => rw [Option.map_eq_none_iff, ih, unclosed_escape]
  | case4 =>
    refine ⟨fun _ before after split => ?_, fun _ => rfl⟩
    have quoted : '"' ∈ ['\\'] := by simp [split]
    exact absurd quoted (by decide)
  | case5 c rest quote escape backslash ih =>
    have notBackslash : c ≠ '\\' := by
      rintro rfl
      cases rest with
      | nil => exact backslash rfl rfl
      | cons d rest => exact escape d rest rfl rfl
    rw [Option.map_eq_none_iff, ih, unclosed_cons quote notBackslash]

end Escapes

section Faults

theorem unmatched_iff_unreached {text : List Char} :
    Unmatched text ↔ ∀ pattern ∈ Pattern.all, pattern.reach text = 0 := by
  rw [← longest?_eq_none_iff, longest?, foldl_farther_eq_none, and_iff_right rfl]

/-- Where a literal begins, it alone can be matched, and it is just if a quote
closes it. -/
theorem unmatched_iff_unclosed {error : LexError} {opening : List Char}
    (opens : error.opening? = some opening) (body : List Char) :
    Unmatched (opening ++ body) ↔ Unclosed body := by
  rw [unmatched_iff_unreached, ← closingQuote_eq_none_iff]
  cases error with
  | unexpected => contradiction
  | openString =>
    cases opens
    have only : ∀ other ∈ Pattern.all, other ≠ .string → other.mayStart '"' = false := by decide
    have reach : Pattern.string.reach ('"' :: body) = 0 ↔ closingQuote body = none := by
      rw [Pattern.reach]
      cases closingQuote body <;> simp
    rw [← reach]
    constructor
    · exact fun unreached => unreached .string (by decide)
    · intro unreached pattern listed
      by_cases same : pattern = .string
      · rw [same]
        exact unreached
      · exact reach_eq_zero (only pattern listed same) body
  | openRegex =>
    cases opens
    have only : ∀ other ∈ Pattern.all, other ≠ .regex →
        other.mayStart '#' = false ∨ other.mayFollowHash '"' = false := by decide
    have reach : Pattern.regex.reach ('#' :: '"' :: body) = 0 ↔ closingQuote body = none := by
      rw [Pattern.reach]
      cases closingQuote body <;> simp
    rw [← reach]
    constructor
    · exact fun unreached => unreached .regex (by decide)
    · intro unreached pattern listed
      by_cases same : pattern = .regex
      · rw [same]
        exact unreached
      · rcases only pattern listed same with cannot | cannot
        · exact reach_eq_zero cannot _
        · exact reach_hash_eq_zero cannot body

theorem lexFault_plain {c : Char} {rest : List Char} (plain : ¬ BeginsLiteral (c :: rest)) :
    lexFault c rest = (.unexpected c, 1) := by
  unfold lexFault
  split
  · exact absurd ⟨.openString, _, rfl, rest, rfl⟩ plain
  next more => exact absurd ⟨.openRegex, _, rfl, more, rfl⟩ plain
  · rfl

theorem lexFault_opening {error : LexError} {opening : List Char}
    (opens : error.opening? = some opening) (body : List Char) :
    ∃ first covered, opening ++ body = first :: covered ∧
      lexFault first covered = (error, covered.length + 1) := by
  cases error with
  | unexpected => contradiction
  | openString =>
    cases opens
    exact ⟨'"', body, rfl, rfl⟩
  | openRegex =>
    cases opens
    exact ⟨'#', '"' :: body, rfl, rfl⟩

/-- A fault is about one character that begins nothing, or about a literal that
takes the rest of the text with it. -/
theorem fault_cases {first : Char} {covered rest : List Char} {error : LexError}
    (unmatched : Unmatched (first :: covered ++ rest))
    (told : lexFault first (covered ++ rest) = (error, covered.length + 1)) :
    (covered = [] ∧ error = .unexpected first ∧ ¬ BeginsLiteral (first :: rest)) ∨
    (rest = [] ∧ ∃ opening body, error.opening? = some opening ∧
      first :: covered = opening ++ body ∧ Unclosed body) := by
  rw [List.cons_append] at unmatched
  by_cases literal : BeginsLiteral (first :: (covered ++ rest))
  · right
    obtain ⟨kind, opening, opens, body, split⟩ := literal
    obtain ⟨c, more, begins, faulty⟩ := lexFault_opening opens body
    have same := List.cons.inj (begins.symm.trans split)
    rw [same.1, same.2, told] at faulty
    obtain ⟨rfl, length⟩ := Prod.mk.inj faulty
    have nothing : rest = [] := by
      apply List.eq_nil_of_length_eq_zero
      rw [List.length_append] at length
      omega
    subst nothing
    rw [List.append_nil] at split
    rw [List.append_nil, ← split] at unmatched
    exact ⟨rfl, opening, body, opens, split.symm, (unmatched_iff_unclosed opens body).1 unmatched⟩
  · left
    rw [lexFault_plain literal] at told
    obtain ⟨rfl, length⟩ := Prod.mk.inj told
    have nothing : covered = [] := List.eq_nil_of_length_eq_zero (by omega)
    subst nothing
    exact ⟨rfl, rfl, literal⟩

end Faults

section Layout

/-- Items laid out over a text that begins at a byte offset, with blanks before,
between and after them. -/
inductive Laid : Nat → List Char → List LexItem → Prop where
  | done {offset : Nat} {gap : List Char} (blank : Blanks gap []) : Laid offset gap []
  | item {offset : Nat} {gap covered rest : List Char} {item : LexItem} {items : List LexItem}
      (blank : Blanks gap (covered ++ rest)) (nonempty : covered ≠ [])
      (placed : item.span =
        ⟨offset + Text.width gap, offset + Text.width gap + Text.width covered⟩)
      (covers : item.Covers covered)
      (further : Laid (offset + Text.width gap + Text.width covered) rest items) :
      Laid offset (gap ++ covered ++ rest) (item :: items)

theorem mem_skipped_cases {lexeme : List Char} (skipped : lexeme ∈ Pattern.skipped.language) :
    (∀ c ∈ lexeme, isGap c = true) ∨ ∃ mark body, lexeme = mark ++ body ∧
      (mark = [';'] ∨ mark = ['#', '!']) ∧ '\n' ∉ body := by
  rw [Pattern.language, Pattern.declared, Regex.mem_either, Regex.mem_either, Regex.mem_plus_char,
    Regex.mem_literal_seq, Regex.mem_literal_seq] at skipped
  simp only [Regex.mem_star_char, has_gaps, has_inLine] at skipped
  rcases skipped with ⟨-, gaps⟩ | ⟨body, inLine, rfl⟩ | ⟨body, inLine, rfl⟩
  · exact .inl gaps
  · exact .inr ⟨_, body, rfl, .inl rfl, fun feed => absurd (inLine _ feed) (by decide)⟩
  · exact .inr ⟨_, body, rfl, .inr rfl, fun feed => absurd (inLine _ feed) (by decide)⟩

/-- A comment is skipped to the end of its line, since what is longer by a
character of that line would be skipped as well. -/
theorem lineEnds_of_longest {mark body rest : List Char} (marks : mark = [';'] ∨ mark = ['#', '!'])
    (oneLine : '\n' ∉ body) (longest : Longest (mark ++ body ++ rest) (mark ++ body) .skipped) :
    ∀ c ∈ rest.head?, c = '\n' := by
  intro c first
  by_contra other
  obtain ⟨more, rfl⟩ : ∃ more, rest = c :: more := List.head?_eq_some_iff.1 first
  have stays : body ++ [c] ∈ (Regex.star (.char inLine)).language := by
    rw [Regex.mem_star_char]
    intro d member
    rw [has_inLine, bne_iff_ne]
    rintro rfl
    rcases List.mem_append.1 member with within | last
    · exact oneLine within
    · exact other (List.mem_singleton.1 last).symm
  have longer : mark ++ (body ++ [c]) ∈ Pattern.skipped.language := by
    rw [Pattern.language, Pattern.declared, Regex.mem_either, Regex.mem_either,
      Regex.mem_literal_seq, Regex.mem_literal_seq]
    rcases marks with rfl | rfl
    · exact .inr (.inl ⟨_, stays, rfl⟩)
    · exact .inr (.inr ⟨_, stays, rfl⟩)
  have short := longest.longest _ longest.listed _ ⟨more, by simp⟩ longer
  simp only [List.length_append, List.length_singleton] at short
  omega

theorem Blanks.skip {lexeme gap after : List Char}
    (longest : Longest (lexeme ++ (gap ++ after)) lexeme .skipped) (more : Blanks gap after) :
    Blanks (lexeme ++ gap) after := by
  rcases mem_skipped_cases longest.matched with gaps | ⟨mark, body, rfl, marks, oneLine⟩
  · clear longest
    induction lexeme with
    | nil => exact more
    | cons c lexeme ih =>
      apply Blanks.gap (gaps c List.mem_cons_self)
      exact ih fun d member => gaps d (List.mem_cons_of_mem _ member)
  · exact .comment marks oneLine (lineEnds_of_longest marks oneLine longest) more

theorem Laid.skip {offset : Nat} {lexeme rest : List Char} {items : List LexItem}
    (longest : Longest (lexeme ++ rest) lexeme .skipped)
    (laid : Laid (offset + Text.width lexeme) rest items) : Laid offset (lexeme ++ rest) items := by
  cases laid with
  | done blank =>
    rw [← List.append_nil rest] at longest
    exact .done (blank.skip longest)
  | @item _ gap covered rest _ _ blank nonempty placed covers further =>
    have moved : offset + Text.width lexeme + Text.width gap = offset + Text.width (lexeme ++ gap) := by
      rw [Text.width_append, Nat.add_assoc]
    rw [moved] at placed further
    rw [List.append_assoc gap] at longest
    rw [← List.append_assoc, ← List.append_assoc]
    exact .item (blank.skip longest) nonempty placed covers further

theorem Scanned.laid {offset : Nat} {text : List Char} {items : List LexItem}
    (scanned : Scanned offset text items) : Laid offset text items := by
  induction scanned with
  | done => exact .done .nothing
  | skips longest _ ih => exact ih.skip longest
  | token longest _ _ ih => exact .item .nothing longest.ne_nil rfl rfl ih
  | @fault _ _ _ _ _ error unmatched told _ ih =>
    refine .item .nothing (List.cons_ne_nil _ _) rfl ?_ ih
    rcases fault_cases unmatched told with ⟨rfl, rfl, -⟩ | ⟨-, opening, body, opens, split, unclosed⟩
    · rfl
    · cases error with
      | unexpected => contradiction
      | openString | openRegex => exact ⟨opening, body, opens, split, unclosed⟩

theorem laid_lex (text : List Char) : Laid (Text.width []) text (lex text) := by
  obtain ⟨items, scanned⟩ := exists_scanned 0 text
  rw [lex, scanned.lexFrom_eq]
  exact scanned.laid

theorem Laid.within {offset : Nat} {text : List Char} {items : List LexItem}
    (laid : Laid offset text items) : ∀ item ∈ items,
      offset ≤ item.span.start ∧ item.span.start < item.span.stop ∧
        item.span.stop ≤ offset + Text.width text := by
  induction laid with
  | done => exact fun _ listed => absurd listed List.not_mem_nil
  | @item offset gap covered rest first items _ nonempty placed _ _ ih =>
    have wide := Nat.lt_of_lt_of_le (List.length_pos_iff.2 nonempty) (Text.length_le_width covered)
    rw [Text.width_append, Text.width_append]
    intro item listed
    rcases List.mem_cons.1 listed with rfl | later
    · rw [placed]
      dsimp only
      omega
    · have bounds := ih item later
      omega

theorem Laid.apart {offset : Nat} {text : List Char} {items : List LexItem}
    (laid : Laid offset text items) :
    items.Pairwise fun earlier later => earlier.span.stop ≤ later.span.start := by
  induction laid with
  | done => exact .nil
  | item _ _ placed _ further ih =>
    refine .cons ?_ ih
    intro later listed
    rw [placed]
    exact (further.within later listed).1

theorem Laid.covers {front text : List Char} {items : List LexItem}
    (laid : Laid (Text.width front) text items) : ∀ item ∈ items, ∃ covered,
      Text.slice item.span.start item.span.stop (front ++ text) = some covered ∧
        item.Covers covered := by
  -- The front grows as the layout is followed, and the whole text stays the same.
  generalize here : Text.width front = offset at laid
  induction laid generalizing front with
  | done => exact fun _ listed => absurd listed List.not_mem_nil
  | @item offset gap covered rest first items _ _ placed covers _ ih =>
    have whole : front ++ (gap ++ covered ++ rest) = front ++ gap ++ covered ++ rest := by
      simp only [List.append_assoc]
    intro item listed
    rw [whole]
    rcases List.mem_cons.1 listed with rfl | later
    · refine ⟨covered, ?_, covers⟩
      rw [placed, ← here, ← Text.width_append, Text.slice_append]
    · exact ih (by rw [Text.width_append, Text.width_append, here]) item later

def lastStop (start : Nat) (items : List LexItem) : Nat :=
  (items.getLast?.map fun item => item.span.stop).getD start

def firstStart (stop : Nat) (items : List LexItem) : Nat :=
  (items.head?.map fun item => item.span.start).getD stop

theorem lastStop_cons (start : Nat) (item : LexItem) (items : List LexItem) :
    lastStop start (item :: items) = lastStop item.span.stop items := by
  cases items with
  | nil => rfl
  | cons next items => rw [lastStop, lastStop, List.getLast?_cons_cons]; rfl

theorem Laid.blanks {front text : List Char} {before after : List LexItem}
    (laid : Laid (Text.width front) text (before ++ after)) : ∃ head gap rest,
      front ++ text = head ++ gap ++ rest ∧ Text.width head = lastStop (Text.width front) before ∧
        Text.width (head ++ gap) = firstStart (Text.width (front ++ text)) after ∧ Blanks gap rest := by
  induction before generalizing front text with
  | nil =>
    rw [List.nil_append] at laid
    cases laid with
    | done blank => exact ⟨front, text, [], by rw [List.append_nil], rfl, rfl, blank⟩
    | @item _ gap covered rest _ _ blank _ placed =>
      refine ⟨front, gap, covered ++ rest, by simp only [List.append_assoc], rfl, ?_, blank⟩
      rw [firstStart, List.head?_cons, Option.map_some, placed, Text.width_append]
      rfl
  | cons item before ih =>
    rw [List.cons_append] at laid
    cases laid with
    | @item _ gap covered rest _ _ _ _ placed _ further =>
      have grown : Text.width front + Text.width gap + Text.width covered =
          Text.width (front ++ gap ++ covered) := by rw [Text.width_append, Text.width_append]
      have whole : front ++ (gap ++ covered ++ rest) = front ++ gap ++ covered ++ rest := by
        simp only [List.append_assoc]
      rw [grown] at further placed
      rw [whole, lastStop_cons, placed]
      exact ih further

end Layout

section Reaching

variable {text : List Char}

theorem Reached.whole {front rest : List Char} (reached : Reached text front rest) :
    front ++ rest = text := by
  induction reached with
  | start => rfl
  | matched _ _ ih => rw [List.append_assoc, ih]
  | unexpected _ _ _ ih => rw [List.append_assoc, List.singleton_append, ih]

theorem Reached.lexed {front rest : List Char} (reached : Reached text front rest) :
    ∃ before, lex text = before ++ lexFrom 0 (Text.width front) rest := by
  induction reached with
  | start => exact ⟨[], rfl⟩
  | @matched front lexeme rest pattern _ longest ih =>
    obtain ⟨before, split⟩ := ih
    rw [lexFrom_longest longest.ne_nil longest.longest?_eq, ← Text.width_append,
      ← List.append_assoc] at split
    exact ⟨_, split⟩
  | @unexpected front rest c _ unmatched plain ih =>
    obtain ⟨before, split⟩ := ih
    have stepped := @lexFrom_fault c [] rest _ unmatched (lexFault_plain plain) (Text.width front)
    rw [← Text.width_append, List.singleton_append] at stepped
    rw [stepped, ← List.singleton_append, ← List.append_assoc] at split
    exact ⟨_, split⟩

theorem Scanned.reaches {offset : Nat} {rest : List Char} {items : List LexItem}
    (scanned : Scanned offset rest items) {front : List Char} (reached : Reached text front rest)
    (here : offset = Text.width front) {error : LexError} {opening : List Char}
    (opens : error.opening? = some opening) {span : Span} (listed : .fault error span ∈ items) :
    ∃ front body, Reached text front (opening ++ body) ∧ Unclosed body ∧
      span = ⟨Text.width front, Text.width text⟩ := by
  induction scanned generalizing front with
  | done => contradiction
  | skips longest _ ih =>
    exact ih (reached.matched longest) (by rw [here, Text.width_append]) listed
  | token longest _ _ ih =>
    refine ih (reached.matched longest) (by rw [here, Text.width_append]) ?_
    exact (List.mem_cons.1 listed).resolve_left LexItem.noConfusion
  | @fault _ first covered rest _ found unmatched told further ih =>
    rcases fault_cases unmatched told with
      ⟨rfl, rfl, plain⟩ | ⟨rfl, opening', body, opens', split, unclosed⟩
    · have passed := reached.unexpected unmatched plain
      refine ih passed (by rw [here, Text.width_append]) ?_
      refine (List.mem_cons.1 listed).resolve_left ?_
      rintro same
      cases same
      contradiction
    · have nothing := further.lexFrom_eq
      rw [lexFrom] at nothing
      subst nothing
      cases List.mem_singleton.1 listed
      obtain rfl := Option.some.inj (opens'.symm.trans opens)
      rw [List.append_nil] at reached
      refine ⟨front, body, split ▸ reached, unclosed, ?_⟩
      rw [← reached.whole, Text.width_append, here]

theorem lexFrom_unclosed {error : LexError} {opening : List Char}
    (opens : error.opening? = some opening) {body : List Char} (unclosed : Unclosed body)
    (offset : Nat) : lexFrom 0 offset (opening ++ body) =
      [.fault error ⟨offset, offset + Text.width (opening ++ body)⟩] := by
  have unmatched := (unmatched_iff_unclosed opens body).2 unclosed
  obtain ⟨first, covered, split, told⟩ := lexFault_opening opens body
  rw [split] at unmatched ⊢
  have lexed := @lexFrom_fault first covered [] error (by rw [List.append_nil]; exact unmatched)
    (by rw [List.append_nil]; exact told) offset
  rw [List.append_nil, lexFrom] at lexed
  exact lexed

/-- A literal is found never closed just where the scan comes to one in which
every quote is escaped. -/
theorem mem_lex_unclosed_iff {error : LexError} {opening : List Char}
    (opens : error.opening? = some opening) {span : Span} :
    .fault error span ∈ lex text ↔ ∃ front body, Reached text front (opening ++ body) ∧
      Unclosed body ∧ span = ⟨Text.width front, Text.width text⟩ := by
  constructor
  · intro listed
    obtain ⟨items, scanned⟩ := exists_scanned 0 text
    rw [lex, scanned.lexFrom_eq] at listed
    exact scanned.reaches .start rfl opens listed
  · rintro ⟨front, body, reached, unclosed, rfl⟩
    obtain ⟨before, split⟩ := reached.lexed
    rw [split, lexFrom_unclosed opens unclosed, ← Text.width_append, reached.whole]
    exact List.mem_append_right _ (List.mem_singleton_self _)

end Reaching

/-- The items of a text stand in order and apart; each is on character
boundaries and covers what it tells of; the text that no item covers is blank.
A string or regex is found never closed exactly where the scan comes to one in
which every quote is escaped. It reaches to the end, and is the last item. -/
theorem lex_loses_no_text (text : List Char) :
    (∀ item ∈ lex text, item.span.start < item.span.stop ∧ item.span.stop ≤ Text.width text ∧
      ∃ covered, Text.slice item.span.start item.span.stop text = some covered ∧
        item.Covers covered) ∧
    ((lex text).Pairwise fun earlier later => earlier.span.stop ≤ later.span.start) ∧
    (∀ before after, lex text = before ++ after → ∃ gap rest,
      Text.slice (lastStop 0 before) (firstStart (Text.width text) after) text = some gap ∧
        Text.slice (firstStart (Text.width text) after) (Text.width text) text = some rest ∧
        Blanks gap rest) ∧
    (∀ error opening, LexError.opening? error = some opening → ∀ span,
      (.fault error span ∈ lex text ↔ ∃ front body, Reached text front (opening ++ body) ∧
        Unclosed body ∧ span = ⟨Text.width front, Text.width text⟩) ∧
      ∀ before after, lex text = before ++ .fault error span :: after → after = []) := by
  have laid := laid_lex text
  refine ⟨fun item listed => ?_, laid.apart, fun before after split => ?_, fun error opening opens span =>
    ⟨mem_lex_unclosed_iff opens, fun before after split => ?_⟩⟩
  · obtain ⟨-, nonempty, bounded⟩ := laid.within item listed
    exact ⟨nonempty, by rwa [Text.width, Nat.zero_add] at bounded, laid.covers item listed⟩
  · rw [split] at laid
    obtain ⟨head, gap, rest, whole, starts, stops, blank⟩ := laid.blanks
    rw [List.nil_append] at whole stops
    change Text.width head = lastStop 0 before at starts
    refine ⟨gap, rest, ?_, ?_, blank⟩
    · rw [← stops, ← starts, Text.width_append, whole, Text.slice_append]
    · have last := Text.slice_append (head ++ gap) rest []
      rw [List.append_nil, ← whole, ← Text.width_append, ← whole] at last
      rw [← stops, last]
  · have listed : .fault error span ∈ lex text := split ▸ List.mem_append_right _ List.mem_cons_self
    obtain ⟨front, body, -, -, rfl⟩ := (mem_lex_unclosed_iff opens).1 listed
    cases after with
    | nil => rfl
    | cons next after =>
      have behind := laid.apart
      rw [split] at behind laid
      have ordered := List.rel_of_pairwise_cons (List.pairwise_append.1 behind).2.1 List.mem_cons_self
      have bounds := laid.within next (by simp)
      simp only [LexItem.span, Text.width] at ordered bounds
      omega

/-- A quote in a comment opens nothing, and one after a backslash closes
nothing. -/
theorem escaped_quote_leaves_string_open :
    let text := "a ;\"\n\"b\\\"".toList
    lex text = [.token ⟨.symbol, ⟨0, 1⟩, "a"⟩, .fault .openString ⟨5, 9⟩] ∧
      (∃ gap rest, Text.slice 1 5 text = some gap ∧ Text.slice 5 9 text = some rest ∧
        Blanks gap rest) ∧
      ∃ front body, Reached text front ('"' :: body) ∧ Unclosed body ∧ Text.width front = 5 := by
  intro text
  have lexed : lex text = [.token ⟨.symbol, ⟨0, 1⟩, "a"⟩, .fault .openString ⟨5, 9⟩] := by
    decide +kernel
  obtain ⟨-, -, blanks, unclosed⟩ := lex_loses_no_text text
  refine ⟨lexed, blanks [_] [_] lexed, ?_⟩
  have listed : .fault .openString ⟨5, 9⟩ ∈ lex text := by
    rw [lexed]
    exact List.mem_cons_of_mem _ List.mem_cons_self
  obtain ⟨front, body, reached, allEscaped, starts⟩ := (unclosed .openString _ rfl _).1.1 listed
  exact ⟨front, body, reached, allEscaped, (congrArg Span.start starts).symm⟩

end VarDoc
