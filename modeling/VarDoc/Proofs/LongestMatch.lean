import VarDoc.Proofs.Lexing
import VarDoc.Proofs.PatternLanguage

/-! Lexing takes the longest match. Of all beginnings of the rest that match a
pattern the longest is taken, and where nothing matches there is an error. A
text matches one pattern at most, except that a signed number is a symbol too;
it is lexed as a number. -/

set_option autoImplicit false

namespace VarDoc

namespace Pattern

theorem reach_pos_of_mem {pattern : Pattern} (listed : pattern ∈ all) {text : List Char}
    (matched : text ∈ pattern.language) : 0 < pattern.reach text := by
  obtain ⟨nonempty, whole⟩ := (mem_language_iff listed).1 matched
  rw [whole]
  exact List.length_pos_iff.2 nonempty

def Sole (pattern : Pattern) : Prop :=
  ∀ other ∈ all, ∀ text, text ∈ pattern.language → text ∈ other.language → other = pattern

theorem sole_of_takesTerminators {pattern : Pattern} (listed : pattern ∈ all)
    (takes : pattern.takesTerminators = true) : pattern.Sole := by
  intro other alsoListed text matched alsoMatched
  exact eq_of_takesTerminators alsoListed takes (reach_pos_of_mem alsoListed alsoMatched)
    (reach_pos_of_mem listed matched)

theorem sole_fixed {wanted : List Char} {kind : TokenKind} (listed : fixed wanted kind ∈ all) :
    (fixed wanted kind).Sole := by
  have only : ∀ entry ∈ fixedTexts, ∀ other ∈ all,
      other.reach entry.1.toList = entry.1.toList.length → other = fixed entry.1.toList entry.2 := by
    decide +kernel
  intro other alsoListed text matched alsoMatched
  obtain rfl : text = wanted := Regex.mem_literal.1 matched
  obtain ⟨spelling, member, rfl⟩ := mem_fixedTexts listed
  exact only (spelling, kind) member other alsoListed ((mem_language_iff alsoListed).1 alsoMatched).2

theorem sole_of_start {pattern : Pattern} {first : Char} (listed : pattern ∈ all)
    (starts : ∀ c, pattern.mayStart c = (c == first))
    (only : ∀ other ∈ all, other.mayStart first = true → other = pattern) : pattern.Sole := by
  intro other alsoListed text matched alsoMatched
  obtain ⟨nonempty, whole⟩ := (mem_language_iff listed).1 matched
  obtain ⟨more, rfl⟩ := opens_with starts text nonempty whole
  exact only other alsoListed (mayStart_of_reach (reach_pos_of_mem alsoListed alsoMatched))

theorem sole_of_hash {pattern : Pattern} {second : Char} (listed : pattern ∈ all)
    (hash : ∀ c, pattern.mayStart c = (c == '#')) (alone : pattern.reach ['#'] = 0)
    (follows : ∀ c, pattern.mayFollowHash c = (c == second))
    (only : ∀ other ∈ all, other.mayStart '#' = true → other.mayFollowHash second = true →
      other = pattern) : pattern.Sole := by
  intro other alsoListed text matched alsoMatched
  obtain ⟨nonempty, whole⟩ := (mem_language_iff listed).1 matched
  obtain ⟨more, rfl⟩ := opens_hash hash alone follows text nonempty whole
  have reaches := reach_pos_of_mem alsoListed alsoMatched
  exact only other alsoListed (mayStart_of_reach reaches) (mayFollowHash_of_reach reaches)

theorem sole_tagged : tagged.Sole := by
  intro other listed text matched alsoMatched
  obtain ⟨nonempty, whole⟩ := (mem_language_iff (by decide : tagged ∈ all)).1 matched
  obtain ⟨c, more, rfl, letter, -⟩ := starts_hash_of_whole nonempty whole (fun _ => rfl) rfl
  have reaches := reach_pos_of_mem listed alsoMatched
  have begins := mayStart_of_reach reaches
  have follows := mayFollowHash_of_reach reaches
  cases other with
  | tagged => rfl
  | fixed wanted kind => exact (sole_fixed listed tagged (by decide) _ alsoMatched matched).symm
  | number | symbol | keyword | string | character => exact absurd begins (by decide)
  | skipped | symbolicValue | namespacedMap | regex =>
    obtain rfl := eq_of_beq follows
    exact absurd letter (by decide)

theorem sole_of_ne {pattern : Pattern} (listed : pattern ∈ all) (notNumber : pattern ≠ number)
    (notSymbol : pattern ≠ symbol) : pattern.Sole := by
  cases pattern with
  | skipped | string | regex | character => exact sole_of_takesTerminators listed rfl
  | fixed wanted kind => exact sole_fixed listed
  | symbolicValue => exact sole_of_hash listed (fun _ => rfl) rfl (fun _ => rfl) (by decide)
  | namespacedMap => exact sole_of_hash listed (fun _ => rfl) rfl (fun _ => rfl) (by decide)
  | tagged => exact sole_tagged
  | keyword => exact sole_of_start listed (fun _ => rfl) (by decide)
  | number => contradiction
  | symbol => contradiction

theorem eq_or_signed {first second : Pattern} (listed : first ∈ all) (alsoListed : second ∈ all)
    {text : List Char} (matched : text ∈ first.language) (alsoMatched : text ∈ second.language) :
    first = second ∨ (first = number ∧ second = symbol) ∨ (first = symbol ∧ second = number) := by
  by_cases sole : first = number ∨ first = symbol
  · by_cases alsoSole : second = number ∨ second = symbol
    · rcases sole with rfl | rfl <;> rcases alsoSole with rfl | rfl <;> simp
    · obtain ⟨notNumber, notSymbol⟩ := not_or.1 alsoSole
      exact .inl (sole_of_ne alsoListed notNumber notSymbol first listed text alsoMatched matched)
  · obtain ⟨notNumber, notSymbol⟩ := not_or.1 sole
    exact .inl (sole_of_ne listed notNumber notSymbol second alsoListed text matched alsoMatched).symm

def Unmatched (text : List Char) : Prop :=
  ∀ pattern ∈ all, ∀ front, front <+: text → front ∉ pattern.language

/-- The lexeme is the longest beginning of the text that matches a pattern, and
this pattern matches it. Where a number and a symbol do, it is the number. -/
structure Longest (text lexeme : List Char) (pattern : Pattern) : Prop where
  listed : pattern ∈ all
  begins : lexeme <+: text
  matched : lexeme ∈ pattern.language
  longest : ∀ other ∈ all, ∀ front, front <+: text → front ∈ other.language →
    front.length ≤ lexeme.length
  preferred : ∀ other ∈ all, lexeme ∈ other.language →
    other = pattern ∨ (pattern = number ∧ other = symbol)

section
variable {text lexeme : List Char} {pattern : Pattern}

theorem Longest.ne_nil (longest : Longest text lexeme pattern) : lexeme ≠ [] :=
  ((mem_language_iff longest.listed).1 longest.matched).1

theorem Longest.unique {other : List Char} {rival : Pattern} (longest : Longest text lexeme pattern)
    (alsoLongest : Longest text other rival) : lexeme = other ∧ pattern = rival := by
  have shorter := longest.longest _ alsoLongest.listed _ alsoLongest.begins alsoLongest.matched
  have longer := alsoLongest.longest _ longest.listed _ longest.begins longest.matched
  obtain rfl : lexeme = other :=
    (List.prefix_of_prefix_length_le longest.begins alsoLongest.begins longer).eq_of_length
      (Nat.le_antisymm longer shorter)
  refine ⟨rfl, ?_⟩
  rcases longest.preferred rival alsoLongest.listed alsoLongest.matched with
    same | ⟨isNumber, isSymbol⟩
  · exact same.symm
  · rcases alsoLongest.preferred pattern longest.listed longest.matched with same | ⟨isNumber', -⟩
    · exact same
    · cases isSymbol.symm.trans isNumber'

theorem length_le_reach (listed : pattern ∈ all) {front : List Char} (begins : front <+: text)
    (matched : front ∈ pattern.language) : front.length ≤ pattern.reach text := by
  obtain ⟨rest, rfl⟩ := begins
  rw [← ((mem_language_iff listed).1 matched).2]
  exact pattern.reach_le_append front rest

theorem take_reach_mem (listed : pattern ∈ all) (reaches : 0 < pattern.reach text) :
    text.take (pattern.reach text) ∈ pattern.language := by
  have length : (text.take (pattern.reach text)).length = pattern.reach text := by
    rw [List.length_take, Nat.min_eq_left (pattern.reach_le_length text)]
  refine (mem_language_iff listed).2 ⟨?_, (pattern.reach_take text).trans length.symm⟩
  rw [← length] at reaches
  exact List.length_pos_iff.1 reaches

theorem number_before_symbol {before after : List Pattern} (split : all = before ++ symbol :: after) :
    number ∈ before := by
  have distinct : all.Nodup := by decide
  have last : all.getLast? = some symbol := by decide
  have listed : number ∈ all := by decide
  rw [split] at distinct last listed
  cases after with
  | nil => simpa using listed
  | cons next after =>
    -- The last pattern is the symbol, which would then be listed twice.
    rw [List.getLast?_append_of_ne_nil _ (List.cons_ne_nil _ _), List.getLast?_cons_cons] at last
    have again : symbol ∈ next :: after := List.mem_of_getLast? last
    exact absurd again (List.nodup_cons.1 (List.nodup_append.1 distinct).2.1).1

theorem longest_of_longest? {length : Nat} (chosen : longest? text = some (pattern, length)) :
    Longest text (text.take length) pattern := by
  obtain ⟨before, after, split, rfl, wins⟩ := wins_of_longest? chosen
  have listed : pattern ∈ all := by simp [split]
  have matched := take_reach_mem listed wins.reaches
  have length : (text.take (pattern.reach text)).length = pattern.reach text := by
    rw [List.length_take, Nat.min_eq_left (pattern.reach_le_length text)]
  refine ⟨listed, List.take_prefix _ _, matched, ?_, ?_⟩
  · intro other alsoListed front begins alsoMatched
    rw [length]
    refine Nat.le_trans (length_le_reach alsoListed begins alsoMatched) ?_
    rw [split] at alsoListed
    rcases List.mem_append.1 alsoListed with earlier | later
    · exact Nat.le_of_lt (wins.earlier other earlier)
    · rcases List.mem_cons.1 later with rfl | after
      · exact Nat.le_refl _
      · exact wins.later other after
  · intro other alsoListed alsoMatched
    rcases eq_or_signed alsoListed listed alsoMatched matched with
      same | ⟨rfl, rfl⟩ | ⟨rfl, rfl⟩
    · exact .inl same
    · -- Numbers come before symbols, so that a number as long would have been taken.
      have farther := length_le_reach alsoListed (List.take_prefix _ _) alsoMatched
      rw [length] at farther
      exact absurd (wins.earlier number (number_before_symbol split)) (Nat.not_lt.2 farther)
    · exact .inr ⟨rfl, rfl⟩

theorem foldl_farther_eq_none {patterns : List Pattern} {best : Option (Pattern × Nat)} :
    patterns.foldl (farther text) best = none ↔
      best = none ∧ ∀ pattern ∈ patterns, pattern.reach text = 0 := by
  induction patterns generalizing best with
  | nil => simp
  | cons first rest ih =>
    rw [List.foldl_cons, ih, farther, List.forall_mem_cons, ← and_assoc]
    refine and_congr_left fun _ => ?_
    split
    next reaches => simp [Nat.ne_of_gt (Nat.lt_of_le_of_lt (Nat.zero_le _) reaches)]
    next short =>
      constructor
      · rintro rfl
        exact ⟨rfl, by simpa using short⟩
      · exact fun both => both.1

theorem longest?_eq_none_iff : longest? text = none ↔ Unmatched text := by
  rw [longest?, foldl_farther_eq_none]
  constructor
  · rintro ⟨-, unreached⟩ pattern listed front begins matched
    have reaches := length_le_reach listed begins matched
    rw [unreached pattern listed, Nat.le_zero, List.length_eq_zero_iff] at reaches
    exact ((mem_language_iff listed).1 matched).1 reaches
  · intro unmatched
    refine ⟨rfl, fun pattern listed => ?_⟩
    by_contra reaches
    exact unmatched pattern listed _ (List.take_prefix _ _)
      (take_reach_mem listed (Nat.pos_of_ne_zero reaches))

theorem Longest.longest?_eq (longest : Longest text lexeme pattern) :
    longest? text = some (pattern, lexeme.length) := by
  cases chosen : longest? text with
  | none =>
    exact absurd longest.matched
      (longest?_eq_none_iff.1 chosen pattern longest.listed lexeme longest.begins)
  | some choice =>
    obtain ⟨rival, length⟩ := choice
    obtain ⟨before, after, -, rfl, -⟩ := wins_of_longest? chosen
    obtain ⟨rfl, rfl⟩ := longest.unique (longest_of_longest? chosen)
    rw [List.length_take, Nat.min_eq_left (pattern.reach_le_length text)]

end

end Pattern

open Pattern

/-- The items of a text that begins at a byte offset: each is made of the longest
match, or tells that there is none. -/
inductive Scanned : Nat → List Char → List LexItem → Prop where
  | done {offset : Nat} : Scanned offset [] []
  | skips {offset : Nat} {lexeme rest : List Char} {items : List LexItem}
      (longest : Longest (lexeme ++ rest) lexeme .skipped)
      (further : Scanned (offset + Text.width lexeme) rest items) :
      Scanned offset (lexeme ++ rest) items
  | token {offset : Nat} {lexeme rest : List Char} {items : List LexItem} {pattern : Pattern}
      {kind : TokenKind} (longest : Longest (lexeme ++ rest) lexeme pattern)
      (makes : pattern.kind? = some kind)
      (further : Scanned (offset + Text.width lexeme) rest items) :
      Scanned offset (lexeme ++ rest)
        (.token ⟨kind, ⟨offset, offset + Text.width lexeme⟩, String.ofList lexeme⟩ :: items)
  | fault {offset : Nat} {first : Char} {covered rest : List Char} {items : List LexItem}
      {error : LexError} (unmatched : Unmatched (first :: covered ++ rest))
      (told : lexFault first (covered ++ rest) = (error, covered.length + 1))
      (further : Scanned (offset + Text.width (first :: covered)) rest items) :
      Scanned offset (first :: covered ++ rest)
        (.fault error ⟨offset, offset + Text.width (first :: covered)⟩ :: items)

theorem lexFrom_fault {first : Char} {covered rest : List Char} {error : LexError}
    (unmatched : Unmatched (first :: covered ++ rest))
    (told : lexFault first (covered ++ rest) = (error, covered.length + 1)) (offset : Nat) :
    lexFrom 0 offset (first :: covered ++ rest) =
      .fault error ⟨offset, offset + Text.width (first :: covered)⟩ ::
        lexFrom 0 (offset + Text.width (first :: covered)) rest := by
  have nothing := longest?_eq_none_iff.2 unmatched
  have taken : (first :: (covered ++ rest)).take (covered.length + 1) = first :: covered := by simp
  rw [List.cons_append] at nothing ⊢
  simp only [lexFrom, lexStep, nothing, told, Nat.add_sub_cancel, taken]
  rw [lexFrom_covered, Text.width, Nat.add_assoc]

theorem Scanned.lexFrom_eq {offset : Nat} {text : List Char} {items : List LexItem}
    (scanned : Scanned offset text items) : lexFrom 0 offset text = items := by
  induction scanned with
  | done => rfl
  | skips longest _ ih =>
    rw [lexFrom_longest longest.ne_nil longest.longest?_eq, ih]
    rfl
  | token longest makes _ ih =>
    rw [lexFrom_longest longest.ne_nil longest.longest?_eq, ih, makes]
    rfl
  | fault unmatched told _ ih => rw [lexFrom_fault unmatched told, ih]

theorem lexFault_covers (first : Char) (rest : List Char) :
    ∃ error covered after, rest = covered ++ after ∧
      lexFault first rest = (error, covered.length + 1) := by
  unfold lexFault
  split
  · exact ⟨_, rest, [], (List.append_nil _).symm, rfl⟩
  next more => exact ⟨_, '"' :: more, [], (List.append_nil _).symm, rfl⟩
  · exact ⟨_, [], rest, rfl, rfl⟩

theorem exists_scanned (offset : Nat) (text : List Char) : ∃ items, Scanned offset text items := by
  -- What an item takes is not empty, so that less is left after it.
  induction size : text.length using Nat.strongRecOn generalizing offset text with
  | ind size ih =>
  cases text with
  | nil => exact ⟨[], .done⟩
  | cons first rest =>
    cases chosen : longest? (first :: rest) with
    | none =>
      have unmatched := longest?_eq_none_iff.1 chosen
      obtain ⟨error, covered, after, rfl, told⟩ := lexFault_covers first rest
      obtain ⟨items, further⟩ := ih after.length (by simp at size; omega) _ after rfl
      exact ⟨_, .fault unmatched told further⟩
    | some choice =>
      obtain ⟨pattern, lexeme, longest⟩ : ∃ pattern lexeme, Longest (first :: rest) lexeme pattern :=
        ⟨choice.1, _, longest_of_longest? chosen⟩
      obtain ⟨after, split⟩ := longest.begins
      have nonempty := List.length_pos_iff.2 longest.ne_nil
      have shorter := congrArg List.length split
      rw [List.length_append] at shorter
      obtain ⟨items, further⟩ := ih after.length (by omega) _ after rfl
      rw [← split] at longest ⊢
      cases makes : pattern.kind? with
      | none =>
        obtain rfl : pattern = skipped := by
          cases pattern with
          | skipped => rfl
          | _ => contradiction
        exact ⟨_, .skips longest further⟩
      | some kind => exact ⟨_, .token longest makes further⟩

theorem lex_number {text : List Char} (isNumber : text ∈ number.language) :
    lex text = [.token (Token.at .number text 0)] := by
  have whole : Longest (text ++ []) text number := by
    refine ⟨by decide, List.prefix_append text [], isNumber, ?_, ?_⟩
    · intro other listed front begins matched
      rw [List.append_nil] at begins
      exact begins.length_le
    · intro other listed matched
      rcases eq_or_signed listed (by decide) matched isNumber with
        same | ⟨-, impossible⟩ | ⟨isSymbol, -⟩
      · exact .inl same
      · contradiction
      · exact .inr ⟨rfl, isSymbol⟩
  have scanned : Scanned 0 (text ++ []) [.token (Token.at .number text 0)] :=
    .token whole rfl .done
  rw [List.append_nil] at scanned
  exact scanned.lexFrom_eq

end VarDoc
