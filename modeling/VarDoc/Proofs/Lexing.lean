import VarDoc.Proofs.Spelling

/-! Lexing texts that are put together from tokens and gaps. Every token that is
lexed is spelled as one, and a spelled token is lexed back wherever something
that ends it follows. -/

set_option autoImplicit false

namespace VarDoc

def Spelled (kind : TokenKind) (text : List Char) : Prop :=
  ∃ pattern, Pattern.longest? text = some (pattern, text.length) ∧ pattern.kind? = some kind

/-- The text is lexed as one token of the kind when `rest` follows. -/
def SpelledBefore (rest : List Char) (kind : TokenKind) (text : List Char) : Prop :=
  ∃ pattern, Pattern.longest? (text ++ rest) = some (pattern, text.length) ∧
    pattern.kind? = some kind

theorem Spelled.before {kind : TokenKind} {text rest : List Char} (spelled : Spelled kind text)
    (ends : Ends rest) : SpelledBefore rest kind text := by
  obtain ⟨pattern, chosen, makes⟩ := spelled
  refine ⟨pattern, Pattern.longest?_append_ends ends chosen ?_, makes⟩
  rintro rfl
  contradiction

theorem Spelled.ne_nil {kind : TokenKind} {text : List Char} (spelled : Spelled kind text) :
    text ≠ [] := by
  rintro rfl
  obtain ⟨pattern, chosen, -⟩ := spelled
  obtain ⟨before, after, -, -, wins⟩ := Pattern.wins_of_longest? chosen
  exact absurd wins.reaches (by rw [Pattern.reach_nil]; decide)

namespace Pattern

theorem longest?_of_farthest {pattern : Pattern} {text : List Char} (listed : pattern ∈ all)
    (reaches : 0 < pattern.reach text)
    (farthest : ∀ other ∈ all, other ≠ pattern → other.reach text < pattern.reach text) :
    longest? text = some (pattern, pattern.reach text) := by
  obtain ⟨before, after, split⟩ := List.append_of_mem listed
  have distinct : all.Nodup := by decide
  apply longest?_of_wins split
  rw [split] at distinct
  have apart := List.nodup_append.1 distinct
  constructor
  · exact reaches
  · intro other member
    apply farthest other (by simp [split, member])
    exact apart.2.2 other member pattern List.mem_cons_self
  · intro other member
    apply Nat.le_of_lt
    apply farthest other (by simp [split, member])
    rintro rfl
    exact (List.nodup_cons.1 apart.2.1).1 member

theorem longest?_of_only {pattern : Pattern} {c : Char} {rest : List Char} (listed : pattern ∈ all)
    (reaches : 0 < pattern.reach (c :: rest))
    (only : ∀ other ∈ all, other ≠ pattern → other.mayStart c = false) :
    longest? (c :: rest) = some (pattern, pattern.reach (c :: rest)) := by
  apply longest?_of_farthest listed reaches
  intro other member different
  rw [reach_eq_zero (only other member different)]
  exact reaches

theorem longest?_of_only_after_hash {pattern : Pattern} {c : Char} {rest : List Char}
    (listed : pattern ∈ all) (reaches : 0 < pattern.reach ('#' :: c :: rest))
    (only : ∀ other ∈ all, other ≠ pattern →
      other.mayStart '#' = false ∨ other.mayFollowHash c = false) :
    longest? ('#' :: c :: rest) = some (pattern, pattern.reach ('#' :: c :: rest)) := by
  apply longest?_of_farthest listed reaches
  intro other member different
  rcases only other member different with cannot | cannot
  · rw [reach_eq_zero cannot]
    exact reaches
  · rw [reach_hash_eq_zero cannot]
    exact reaches

end Pattern

theorem lexFrom_covered (front rest : List Char) (offset : Nat) :
    lexFrom front.length offset (front ++ rest) = lexFrom 0 (offset + Text.width front) rest := by
  induction front generalizing offset with
  | nil => rfl
  | cons c front ih => rw [List.length_cons, List.cons_append, lexFrom, ih, Text.width, Nat.add_assoc]

def Token.at (kind : TokenKind) (text : List Char) (offset : Nat) : Token :=
  ⟨kind, ⟨offset, offset + Text.width text⟩, String.ofList text⟩

theorem lexFrom_longest {pattern : Pattern} {text rest : List Char} (nonempty : text ≠ [])
    (chosen : Pattern.longest? (text ++ rest) = some (pattern, text.length)) (offset : Nat) :
    lexFrom 0 offset (text ++ rest) =
      (pattern.kind?.map fun kind => .token (Token.at kind text offset)).toList ++
        lexFrom 0 (offset + Text.width text) rest := by
  obtain ⟨c, text, rfl⟩ := List.exists_cons_of_ne_nil nonempty
  have lexeme : (c :: (text ++ rest)).take (text.length + 1) = c :: text := by simp
  rw [List.cons_append] at chosen ⊢
  simp only [lexFrom, lexStep, chosen, List.length_cons, Nat.add_sub_cancel, lexeme]
  rw [lexFrom_covered, Text.width, Nat.add_assoc]
  cases pattern.kind? <;> rfl

theorem lexFrom_spelled {kind : TokenKind} {text rest : List Char} (nonempty : text ≠ [])
    (spelled : SpelledBefore rest kind text) (offset : Nat) :
    lexFrom 0 offset (text ++ rest) =
      .token (Token.at kind text offset) :: lexFrom 0 (offset + Text.width text) rest := by
  obtain ⟨pattern, chosen, makes⟩ := spelled
  rw [lexFrom_longest nonempty chosen, makes]
  rfl

theorem lexFrom_skips {c : Char} (gap : isGap c = true) (rest : List Char) (offset : Nat) :
    lexFrom 0 offset (c :: rest) = lexFrom (run isGap rest) (offset + c.utf8Size) rest := by
  have reach : Pattern.skipped.reach (c :: rest) = run isGap rest + 1 := by
    rw [Pattern.reach_gap gap, run_cons_of_true gap]
  have chosen : Pattern.longest? (c :: rest) = some (.skipped, run isGap rest + 1) := by
    rw [← reach]
    apply Pattern.longest?_of_only (by decide) (by omega)
    intro other listed different
    apply Bool.eq_false_iff.2
    intro begins
    exact different (Pattern.eq_skipped_of_mayStart (.inr gap) listed begins)
  simp only [lexFrom, lexStep, chosen, Pattern.kind?, Option.map_none, Nat.add_sub_cancel]

theorem lexFrom_gap {c : Char} (gap : isGap c = true) (rest : List Char) (offset : Nat) :
    lexFrom 0 offset (c :: rest) = lexFrom 0 (offset + c.utf8Size) rest := by
  rw [lexFrom_skips gap]
  cases rest with
  | nil => rfl
  | cons d rest =>
    cases more : isGap d with
    | true => rw [lexFrom_skips more, run_cons_of_true more, lexFrom]
    | false => rw [run_cons_of_false more]

theorem lexStep_spelled {offset length : Nat} {first : Char} {rest : List Char} {token : Token}
    (lexed : lexStep offset first rest = (some (.token token), length)) :
    Spelled token.kind token.lexeme.toList := by
  unfold lexStep at lexed
  split at lexed
  next pattern reached chosen =>
    simp only [Prod.mk.injEq, Option.map_eq_some_iff, LexItem.token.injEq] at lexed
    obtain ⟨⟨kind, makes, rfl⟩, rfl⟩ := lexed
    have bound : reached ≤ (first :: rest).length := by
      obtain ⟨-, -, -, rfl, -⟩ := Pattern.wins_of_longest? chosen
      exact pattern.reach_le_length _
    refine ⟨pattern, ?_, makes⟩
    rw [String.toList_ofList, Pattern.longest?_take chosen, List.length_take, Nat.min_eq_left bound]
  next => simp at lexed

theorem spelled_of_lexed {covered offset : Nat} {text : List Char} {token : Token}
    (lexed : .token token ∈ lexFrom covered offset text) :
    Spelled token.kind token.lexeme.toList := by
  fun_induction lexFrom covered offset text with
  | case1 => simp at lexed
  | case2 _ _ _ _ _ ih => exact ih lexed
  | case3 offset first rest next length item stepped ih =>
    rcases List.mem_cons.1 lexed with rfl | later
    · exact lexStep_spelled stepped
    · exact ih later
  | case4 offset first rest next length stepped ih => exact ih lexed

theorem SpelledBefore.of_only {c : Char} {kind : TokenKind}
    (listed : .fixed [c] kind ∈ Pattern.all)
    (only : ∀ other ∈ Pattern.all, other ≠ .fixed [c] kind → other.mayStart c = false)
    (rest : List Char) : SpelledBefore rest kind [c] := by
  have reach : (Pattern.fixed [c] kind).reach (c :: rest) = 1 := by simp [Pattern.reach]
  have chosen := Pattern.longest?_of_only listed (by rw [reach]; decide) only
  rw [reach] at chosen
  exact ⟨_, chosen, rfl⟩

theorem SpelledBefore.of_only_after_hash {c : Char} {kind : TokenKind}
    (listed : .fixed ['#', c] kind ∈ Pattern.all)
    (only : ∀ other ∈ Pattern.all, other ≠ .fixed ['#', c] kind →
      other.mayStart '#' = false ∨ other.mayFollowHash c = false)
    (rest : List Char) : SpelledBefore rest kind ['#', c] := by
  have reach : (Pattern.fixed ['#', c] kind).reach ('#' :: c :: rest) = 2 := by
    simp [Pattern.reach]
  have chosen := Pattern.longest?_of_only_after_hash listed (by rw [reach]; decide) only
  rw [reach] at chosen
  exact ⟨_, chosen, rfl⟩

theorem spelledBefore_open (shape : Shape) (rest : List Char) :
    SpelledBefore rest (.opensGroup shape) shape.openText.toList := by
  cases shape with
  | list => exact .of_only (by decide) (by decide) rest
  | vector => exact .of_only (by decide) (by decide) rest
  | set => exact .of_only_after_hash (by decide) (by decide) rest
  | function => exact .of_only_after_hash (by decide) (by decide) rest

theorem spelledBefore_openMap (rest : List Char) : SpelledBefore rest .opensMap ['\x7b'] :=
  .of_only (by decide) (by decide) rest

theorem spelledBefore_close (delimiter : Delimiter) (rest : List Char) :
    SpelledBefore rest (.closes delimiter) delimiter.closeText.toList := by
  cases delimiter with
  | paren => exact .of_only (by decide) (by decide) rest
  | square => exact .of_only (by decide) (by decide) rest
  | curly => exact .of_only (by decide) (by decide) rest

theorem spelledBefore_syntaxQuote (rest : List Char) :
    SpelledBefore rest (.sigil .syntaxQuote) ['\x60'] :=
  .of_only (by decide) (by decide) rest

theorem mayStart_tilde : ∀ other ∈ Pattern.all, other.mayStart '~' = true →
    other = .fixed ['~'] (.sigil .unquote) ∨ other = .fixed ['~', '@'] (.sigil .unquoteSplicing) := by
  decide

theorem spelledBefore_tilde {kind : TokenKind} {mark rest : List Char}
    (listed : .fixed ('~' :: mark) kind ∈ Pattern.all) (shorter : ∀ other : Pattern,
      other = .fixed ['~'] (.sigil .unquote) ∨ other = .fixed ['~', '@'] (.sigil .unquoteSplicing) →
      other ≠ .fixed ('~' :: mark) kind → other.reach ('~' :: mark ++ rest) < mark.length + 1) :
    SpelledBefore rest kind ('~' :: mark) := by
  have reach : (Pattern.fixed ('~' :: mark) kind).reach ('~' :: mark ++ rest) = mark.length + 1 := by
    simp [Pattern.reach]
  refine ⟨.fixed ('~' :: mark) kind, ?_, rfl⟩
  rw [Pattern.longest?_of_farthest listed (by omega), reach, List.length_cons]
  intro other member different
  cases starts : other.mayStart '~' with
  | false =>
    rw [reach, List.cons_append, Pattern.reach_eq_zero starts]
    omega
  | true =>
    rw [reach]
    exact shorter other (mayStart_tilde other member starts) different

/-- One of the two marks that begin with a tilde goes on with an at sign, which
must not follow the other. -/
theorem spelledBefore_unquote {rest : List Char} (apart : rest.head? ≠ some '@') :
    SpelledBefore rest (.sigil .unquote) ['~'] := by
  apply spelledBefore_tilde (by decide)
  rintro other (rfl | rfl) different
  · contradiction
  · cases rest with
    | nil => decide
    | cons c rest =>
      have different : '@' ≠ c := fun same => apart (same ▸ rfl)
      simp [Pattern.reach, List.isPrefixOf_cons_cons, different]

theorem spelledBefore_unquoteSplicing (rest : List Char) :
    SpelledBefore rest (.sigil .unquoteSplicing) ['~', '@'] := by
  apply spelledBefore_tilde (by decide)
  rintro other (rfl | rfl) different
  · simp [Pattern.reach]
  · contradiction

theorem Spelled.reach_eq {kind : TokenKind} {text : List Char} (spelled : Spelled kind text)
    {pattern : Pattern}
    (only : ∀ other ∈ Pattern.all, other.kind? = some kind → other = pattern) :
    pattern.reach text = text.length := by
  obtain ⟨other, chosen, makes⟩ := spelled
  obtain ⟨before, after, listed, whole, -⟩ := Pattern.wins_of_longest? chosen
  rw [← only other (by simp [listed]) makes, whole]

theorem Spelled.starts {kind : TokenKind} {text : List Char} (spelled : Spelled kind text)
    {pattern : Pattern} (only : ∀ other ∈ Pattern.all, other.kind? = some kind → other = pattern) :
    ∃ c rest, text = c :: rest ∧ pattern.mayStart c = true ∧
      pattern.reach (c :: rest) = rest.length + 1 :=
  Pattern.starts_of_whole spelled.ne_nil (spelled.reach_eq only)

theorem Spelled.starts_hash {kind : TokenKind} {text : List Char} (spelled : Spelled kind text)
    {pattern : Pattern} (only : ∀ other ∈ Pattern.all, other.kind? = some kind → other = pattern)
    (hash : ∀ c, pattern.mayStart c = (c == '#')) (alone : pattern.reach ['#'] = 0) :
    ∃ c rest, text = '#' :: c :: rest ∧ pattern.mayFollowHash c = true ∧
      pattern.reach ('#' :: c :: rest) = rest.length + 2 :=
  Pattern.starts_hash_of_whole spelled.ne_nil (spelled.reach_eq only) hash alone

theorem Spelled.of_only {kind : TokenKind} {c : Char} {text : List Char} {pattern : Pattern}
    (listed : pattern ∈ Pattern.all) (makes : pattern.kind? = some kind)
    (only : ∀ other ∈ Pattern.all, other ≠ pattern → other.mayStart c = false)
    (whole : pattern.reach (c :: text) = text.length + 1) : Spelled kind (c :: text) := by
  refine ⟨pattern, ?_, makes⟩
  rw [Pattern.longest?_of_only listed (by omega) only, whole, List.length_cons]

theorem spelled_keyword_iff {text : List Char} :
    Spelled .keyword text ↔
      ∃ name, text = ':' :: name ∧ name ≠ [] ∧ ∀ c ∈ name, isConstituent c = true := by
  have only : ∀ other ∈ Pattern.all, other.kind? = some .keyword → other = .keyword := by decide
  constructor
  · intro spelled
    obtain ⟨c, name, rfl, begins, whole⟩ := spelled.starts only
    obtain rfl : c = ':' := by simpa [Pattern.mayStart] using begins
    rw [Pattern.reach_keyword, Pattern.past] at whole
    have characters : run isConstituent name = name.length ∧ name.length ≠ 0 := by
      split at whole <;> omega
    exact ⟨name, rfl, by simpa using characters.2, run_eq_length_iff.1 characters.1⟩
  · rintro ⟨name, rfl, nonempty, constituents⟩
    have whole : Pattern.keyword.reach (':' :: name) = name.length + 1 := by
      rw [Pattern.reach_keyword, run_eq_length_iff.2 constituents, Pattern.past,
        if_neg (by simpa using nonempty), Nat.add_comm]
    exact .of_only (by decide) rfl (by decide) whole

theorem Spelled.namespacedMap {text : List Char} (spelled : Spelled .namespacedMap text) :
    ∃ name, text = '#' :: ':' :: name ∧ ∀ c ∈ name, isConstituent c = true := by
  have only : ∀ other ∈ Pattern.all, other.kind? = some .namespacedMap → other = .namespacedMap := by
    decide
  obtain ⟨c, name, rfl, follows, whole⟩ := spelled.starts_hash only (fun _ => rfl) rfl
  obtain rfl : c = ':' := by simpa [Pattern.mayFollowHash] using follows
  rw [Pattern.reach, Nat.add_comm] at whole
  exact ⟨name, rfl, run_eq_length_iff.1 (Nat.add_right_cancel whole)⟩

theorem Spelled.symbolicValue {text : List Char} (spelled : Spelled .symbolicValue text) :
    ∃ name, text = '#' :: '#' :: name := by
  have only : ∀ other ∈ Pattern.all, other.kind? = some .symbolicValue → other = .symbolicValue := by
    decide
  obtain ⟨c, name, rfl, follows, -⟩ := spelled.starts_hash only (fun _ => rfl) rfl
  obtain rfl : c = '#' := by simpa [Pattern.mayFollowHash] using follows
  exact ⟨name, rfl⟩

theorem closingQuote_of_elim {text : List Char} {opening : Nat} (positive : 0 < opening)
    (whole : (closingQuote text).elim 0 (· + opening) = text.length + opening) :
    closingQuote text = some text.length := by
  cases found : closingQuote text with
  | none =>
    rw [found, Option.elim_none] at whole
    omega
  | some length =>
    rw [found, Option.elim_some] at whole
    rw [Nat.add_right_cancel whole]

theorem Spelled.regex {text : List Char} (spelled : Spelled .regex text) :
    ∃ body, text = '#' :: '"' :: (body ++ ['"']) := by
  have only : ∀ other ∈ Pattern.all, other.kind? = some .regex → other = .regex := by decide
  obtain ⟨c, rest, rfl, follows, whole⟩ := spelled.starts_hash only (fun _ => rfl) rfl
  obtain rfl : c = '"' := by simpa [Pattern.mayFollowHash] using follows
  have closed : closingQuote rest = some rest.length := closingQuote_of_elim (by decide) whole
  obtain ⟨body, rfl, -⟩ := closingQuote_eq_length closed
  exact ⟨body, rfl⟩

theorem Spelled.string {text : List Char} (spelled : Spelled .string text) :
    ∃ body, text = '"' :: (body ++ ['"']) ∧ Enclosed body := by
  have only : ∀ other ∈ Pattern.all, other.kind? = some .string → other = .string := by decide
  obtain ⟨c, rest, rfl, begins, whole⟩ := spelled.starts only
  obtain rfl : c = '"' := by simpa [Pattern.mayStart] using begins
  have closed : closingQuote rest = some rest.length := closingQuote_of_elim (by decide) whole
  obtain ⟨body, rfl, enclosed⟩ := closingQuote_eq_length closed
  exact ⟨body, rfl, enclosed⟩

theorem Spelled.character {text : List Char} (spelled : Spelled .character text) :
    ∃ name, text = '\\' :: name := by
  have only : ∀ other ∈ Pattern.all, other.kind? = some .character → other = .character := by decide
  obtain ⟨c, name, rfl, begins, -⟩ := spelled.starts only
  obtain rfl : c = '\\' := by simpa [Pattern.mayStart] using begins
  exact ⟨name, rfl⟩

theorem Spelled.tagged {text : List Char} (spelled : Spelled .tagged text) :
    ∃ name, text = '#' :: name := by
  have only : ∀ other ∈ Pattern.all, other.kind? = some .tagged → other = .tagged := by decide
  obtain ⟨c, name, rfl, begins, -⟩ := spelled.starts only
  obtain rfl : c = '#' := by simpa [Pattern.mayStart] using begins
  exact ⟨name, rfl⟩

theorem spelled_string {body : List Char} (closed : closingQuote body = some body.length) :
    Spelled .string ('"' :: body) := by
  have whole : Pattern.string.reach ('"' :: body) = body.length + 1 := by
    rw [Pattern.reach, closed]
    rfl
  exact .of_only (by decide) rfl (by decide) whole

end VarDoc
