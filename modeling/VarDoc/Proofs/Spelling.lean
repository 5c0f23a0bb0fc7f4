import VarDoc.Proofs.Reach

/-! Where tokens end. White space, commas and closing brackets end whatever
token stands before them, so a text that is one token is lexed as that token
wherever one of them follows. -/

set_option autoImplicit false

namespace VarDoc

/-- Characters that end any token before them: white space, commas and closing
brackets. -/
def terminators : List Char := [' ', '\t', '\r', '\n', '\x0c', ',', ')', ']', '\x7d']

def Ends (rest : List Char) : Prop := ∀ c ∈ rest.head?, c ∈ terminators

theorem Ends.take {rest : List Char} (ends : Ends rest) (count : Nat) : Ends (rest.take count) := by
  intro c first
  cases rest with
  | nil => simp at first
  | cons d rest =>
    cases count with
    | zero => simp at first
    | succ more => exact ends c first

theorem Ends.fails {test : Char → Bool} {rest : List Char} (ends : Ends rest)
    (fails : terminators.all (!test ·) = true) : ∀ c ∈ rest.head?, test c = false := by
  intro c first
  simpa using List.all_eq_true.1 fails c (ends c first)

theorem run_append_ends {test : Char → Bool} {rest : List Char} (ends : Ends rest)
    (fails : terminators.all (!test ·) = true) (text : List Char) :
    run test (text ++ rest) = run test text :=
  run_append (ends.fails fails)

theorem isConstituent_terminator : terminators.all (!isConstituent ·) = true := by decide

theorem isPrefixOf_append_ends {wanted text rest : List Char} (ends : Ends rest)
    (nonempty : text ≠ []) (free : ∀ c ∈ wanted.tail, c ∉ terminators) :
    wanted.isPrefixOf (text ++ rest) = wanted.isPrefixOf text := by
  induction text generalizing wanted with
  | nil => contradiction
  | cons c text ih =>
    cases wanted with
    | nil => rfl
    | cons first more =>
      rw [List.cons_append, List.isPrefixOf_cons_cons, List.isPrefixOf_cons_cons]
      congr 1
      cases text with
      | cons d text =>
        exact ih (by simp) fun e member => free e (List.mem_of_mem_tail member)
      | nil =>
        cases more with
        | nil => simp
        | cons second more =>
          cases rest with
          | nil => rfl
          | cons d rest =>
            have different : second ≠ d := by
              rintro rfl
              exact free second (by simp) (ends second rfl)
            simp [List.isPrefixOf_cons_cons, different]

theorem find?_characterNames_append {text rest : List Char} (ends : Ends rest)
    (nonempty : text ≠ []) :
    characterNames.find? (·.isPrefixOf (text ++ rest)) =
      characterNames.find? (·.isPrefixOf text) := by
  have free : ∀ name ∈ characterNames, name.tail.all (!terminators.contains ·) = true := by
    decide +kernel
  have same (names : List (List Char)) (known : ∀ name ∈ names, name ∈ characterNames) :
      names.find? (·.isPrefixOf (text ++ rest)) = names.find? (·.isPrefixOf text) := by
    induction names with
    | nil => rfl
    | cons name names ih =>
      rw [List.find?_cons, List.find?_cons,
        isPrefixOf_append_ends ends nonempty (by simpa using free name (known name List.mem_cons_self)),
        ih fun other member => known other (List.mem_cons_of_mem _ member)]
  exact same characterNames fun _ member => member

theorem characterReach_append_ends {name rest : List Char} (ends : Ends rest)
    (nonempty : name ≠ []) : characterReach (name ++ rest) = characterReach name := by
  have same := find?_characterNames_append ends nonempty
  cases found : characterNames.find? (·.isPrefixOf name) with
  | some known => rw [characterReach_known (same.trans found), characterReach_known found]
  | none =>
    cases name with
    | nil => contradiction
    | cons c more =>
      rw [List.cons_append] at same ⊢
      by_cases code : c = 'u'
      · rw [code, characterReach_code, characterReach_code, List.take_append,
          run_append_ends (ends.take _) (by decide)]
      by_cases octal : c = 'o'
      · rw [octal, characterReach_octal, characterReach_octal, List.take_append,
          run_append_ends (ends.take _) (by decide)]
      · rw [characterReach_plain (same.trans found) code octal,
          characterReach_plain found code octal]

namespace Pattern

def mayStart : Pattern → Char → Bool
  | .skipped, c => c == ';' || c == '#' || isGap c
  | .fixed wanted _, c => wanted.head? == some c
  | .symbolicValue, c | .namespacedMap, c | .tagged, c | .regex, c => c == '#'
  | .string, c => c == '"'
  | .character, c => c == '\\'
  | .number, c => c.isDigit || c == '+' || c == '-'
  | .keyword, c => c == ':'
  | .symbol, c => isSymbolStart c

def mayFollowHash : Pattern → Char → Bool
  | .skipped, c => c == '!'
  | .fixed wanted _, c => wanted.length == 1 || wanted.take 2 == ['#', c]
  | .symbolicValue, c => c == '#'
  | .namespacedMap, c => c == ':'
  | .tagged, c => c.isAlpha
  | .regex, c => c == '"'
  | _, _ => false

theorem reach_eq_zero {pattern : Pattern} {c : Char} (cannot : pattern.mayStart c = false)
    (rest : List Char) : pattern.reach (c :: rest) = 0 := by
  cases pattern with
  | skipped =>
    simp only [mayStart, Bool.or_eq_false_iff, beq_eq_false_iff_ne] at cannot
    rw [reach]
    · exact run_cons_of_false cannot.2 rest
    · rintro _ same
      exact cannot.1.1 (List.cons.inj same).1
    · rintro _ same
      exact cannot.1.2 (List.cons.inj same).1
  | fixed wanted kind =>
    cases wanted with
    | nil => rfl
    | cons first more =>
      have different : (first == c) = false := by simpa [mayStart] using cannot
      simp [reach, List.isPrefixOf, different]
  | number =>
    simp only [mayStart, Bool.or_eq_false_iff] at cannot
    simp [reach, numberReach, cannot.1.1, cannot.1.2, cannot.2]
  | symbol =>
    have cannot : isSymbolStart c = false := cannot
    simp [reach, cannot]
  | _ =>
    simp only [mayStart, beq_eq_false_iff_ne] at cannot
    unfold reach
    split <;> simp_all

theorem reach_hash_eq_zero {pattern : Pattern} {c : Char}
    (cannot : pattern.mayFollowHash c = false) (rest : List Char) :
    pattern.reach ('#' :: c :: rest) = 0 := by
  cases pattern with
  | skipped =>
    simp only [mayFollowHash, beq_eq_false_iff_ne] at cannot
    rw [reach]
    · rfl
    · simp
    · rintro _ same
      exact cannot (List.cons.inj (List.cons.inj same).2).1
  | fixed wanted kind =>
    match wanted with
    | [] => rfl
    | [_] => simp [mayFollowHash] at cannot
    | first :: second :: more =>
      simp only [mayFollowHash, Bool.or_eq_false_iff, beq_eq_false_iff_ne] at cannot
      rw [reach, if_neg]
      intro fits
      simp only [List.isPrefixOf, Bool.and_eq_true, beq_iff_eq] at fits
      obtain ⟨rfl, rfl, -⟩ := fits
      exact cannot.2 rfl
  | symbolicValue | namespacedMap | regex =>
    simp only [mayFollowHash, beq_eq_false_iff_ne] at cannot
    unfold reach
    split <;> simp_all
  | tagged =>
    have cannot : c.isAlpha = false := cannot
    simp [reach, cannot]
  | _ => exact reach_eq_zero (by decide) _

theorem mayStart_of_reach {pattern : Pattern} {c : Char} {text : List Char}
    (reaches : 0 < pattern.reach (c :: text)) : pattern.mayStart c = true := by
  cases starts : pattern.mayStart c with
  | true => rfl
  | false => rw [reach_eq_zero starts] at reaches; contradiction

theorem mayFollowHash_of_reach {pattern : Pattern} {c : Char} {text : List Char}
    (reaches : 0 < pattern.reach ('#' :: c :: text)) : pattern.mayFollowHash c = true := by
  cases follows : pattern.mayFollowHash c with
  | true => rfl
  | false => rw [reach_hash_eq_zero follows] at reaches; contradiction

theorem starts_of_whole {pattern : Pattern} {text : List Char} (nonempty : text ≠ [])
    (whole : pattern.reach text = text.length) :
    ∃ c rest, text = c :: rest ∧ pattern.mayStart c = true ∧
      pattern.reach (c :: rest) = rest.length + 1 := by
  obtain ⟨c, rest, rfl⟩ := List.exists_cons_of_ne_nil nonempty
  have begins := mayStart_of_reach (Nat.lt_of_lt_of_eq (Nat.succ_pos _) whole.symm)
  exact ⟨c, rest, rfl, begins, whole⟩

theorem starts_hash_of_whole {pattern : Pattern} {text : List Char} (nonempty : text ≠ [])
    (whole : pattern.reach text = text.length) (hash : ∀ c, pattern.mayStart c = (c == '#'))
    (alone : pattern.reach ['#'] = 0) :
    ∃ c rest, text = '#' :: c :: rest ∧ pattern.mayFollowHash c = true ∧
      pattern.reach ('#' :: c :: rest) = rest.length + 2 := by
  obtain ⟨c, rest, rfl, begins, whole⟩ := starts_of_whole nonempty whole
  obtain rfl : c = '#' := by simpa [hash] using begins
  cases rest with
  | nil => rw [alone] at whole; contradiction
  | cons c rest =>
    have follows := mayFollowHash_of_reach (Nat.lt_of_lt_of_eq (Nat.succ_pos _) whole.symm)
    exact ⟨c, rest, rfl, follows, whole⟩

/-- Patterns that may take terminators in: they begin a comment, or a literal
that goes on to its own end. -/
def takesTerminators : Pattern → Bool
  | .skipped | .string | .regex | .character => true
  | _ => false

theorem mem_fixedTexts {wanted : List Char} {kind : TokenKind} (listed : fixed wanted kind ∈ all) :
    ∃ text, (text, kind) ∈ fixedTexts ∧ text.toList = wanted := by
  simp only [all, List.cons_append, List.mem_cons, List.mem_append, List.mem_map, reduceCtorEq,
    fixed.injEq, List.not_mem_nil, or_false, false_or] at listed
  obtain ⟨⟨text, kind⟩, member, rfl, rfl⟩ := listed
  exact ⟨text, member, rfl⟩

theorem numberReach_append_ends {rest : List Char} (ends : Ends rest) (text : List Char) :
    numberReach (text ++ rest) = numberReach text := by
  cases text with
  | nil =>
    cases rest with
    | nil => rfl
    | cons c rest =>
      have other : c.isDigit = false := ends.fails (by decide) c rfl
      simp [numberReach, other]
  | cons c text =>
    rw [List.cons_append, numberReach, numberReach, run_append_ends ends (by decide)]

theorem reach_hash_append_ends {pattern : Pattern} {rest : List Char} (ends : Ends rest)
    (alone : pattern.reach ['#'] = 0)
    (cannot : terminators.all (!pattern.mayFollowHash ·) = true)
    (inside : ∀ c text, pattern.mayFollowHash c = true →
      pattern.reach ('#' :: c :: (text ++ rest)) = pattern.reach ('#' :: c :: text))
    (text : List Char) : pattern.reach ('#' :: (text ++ rest)) = pattern.reach ('#' :: text) := by
  cases text with
  | nil =>
    cases rest with
    | nil => rfl
    | cons c rest => rw [List.nil_append, reach_hash_eq_zero (ends.fails cannot c rfl), alone]
  | cons c text =>
    cases follows : pattern.mayFollowHash c with
    | true => exact inside c text follows
    | false => rw [List.cons_append, reach_hash_eq_zero follows, reach_hash_eq_zero follows]

theorem reach_append_ends {pattern : Pattern} {text rest : List Char} (ends : Ends rest)
    (nonempty : text ≠ []) (listed : pattern ∈ all) (stops : pattern.takesTerminators = false) :
    pattern.reach (text ++ rest) = pattern.reach text := by
  obtain ⟨c, text, rfl⟩ := List.exists_cons_of_ne_nil nonempty
  cases starts : pattern.mayStart c with
  | false => rw [List.cons_append, reach_eq_zero starts, reach_eq_zero starts]
  | true =>
  cases pattern with
  | fixed wanted kind =>
    have free : ∀ entry ∈ fixedTexts, entry.1.toList.tail.all (!terminators.contains ·) = true := by
      decide +kernel
    obtain ⟨fixedText, member, rfl⟩ := mem_fixedTexts listed
    rw [reach, reach, isPrefixOf_append_ends ends nonempty (by simpa using free _ member)]
  | number =>
    rw [List.cons_append]
    by_cases sign : (c == '+' || c == '-') = true
    · rw [reach_signed sign, reach_signed sign, numberReach_append_ends ends]
    · rw [reach_unsigned sign, reach_unsigned sign]
      exact numberReach_append_ends ends (c :: text)
  | symbol =>
    rw [List.cons_append, reach, reach, run_append_ends ends isConstituent_terminator]
  | keyword =>
    obtain rfl : c = ':' := by simpa [mayStart] using starts
    rw [List.cons_append, reach_keyword, reach_keyword,
      run_append_ends ends isConstituent_terminator]
  | symbolicValue =>
    obtain rfl : c = '#' := by simpa [mayStart] using starts
    refine reach_hash_append_ends ends rfl (by decide) (fun d text follows => ?_) text
    obtain rfl : d = '#' := by simpa [mayFollowHash] using follows
    rw [reach_symbolicValue, reach_symbolicValue, run_append_ends ends (by decide)]
  | namespacedMap =>
    obtain rfl : c = '#' := by simpa [mayStart] using starts
    refine reach_hash_append_ends ends rfl (by decide) (fun d text follows => ?_) text
    obtain rfl : d = ':' := by simpa [mayFollowHash] using follows
    rw [reach, reach, run_append_ends ends isConstituent_terminator]
  | tagged =>
    obtain rfl : c = '#' := by simpa [mayStart] using starts
    refine reach_hash_append_ends ends rfl (by decide) (fun d text follows => ?_) text
    rw [reach, reach, run_append_ends ends isConstituent_terminator]
  | _ => contradiction

theorem eq_skipped_of_mayStart {c : Char} (blank : c = ';' ∨ isGap c = true) {pattern : Pattern}
    (listed : pattern ∈ all) (begins : pattern.mayStart c = true) : pattern = skipped := by
  have only : ∀ pattern ∈ all,
      [';', ' ', '\t', '\r', '\n', '\x0c', ','].any pattern.mayStart = true → pattern = skipped := by
    decide
  have member : c ∈ [';', ' ', '\t', '\r', '\n', '\x0c', ','] := by
    simpa [isGap, or_assoc] using blank
  exact only pattern listed (List.any_eq_true.2 ⟨c, member, begins⟩)

theorem eq_of_takesTerminators {pattern other : Pattern} (listed : pattern ∈ all)
    (takes : other.takesTerminators = true) {text : List Char}
    (reaches : 0 < pattern.reach text) (alsoReaches : 0 < other.reach text) : pattern = other := by
  cases text with
  | nil => rw [reach_nil] at reaches; contradiction
  | cons c text =>
  have begins := mayStart_of_reach reaches
  have alsoBegins := mayStart_of_reach alsoReaches
  by_cases hash : c = '#'
  · subst hash
    cases text with
    | nil =>
      have nothing : ∀ pattern ∈ all, pattern.reach ['#'] = 0 := by decide
      rw [nothing pattern listed] at reaches
      contradiction
    | cons d text =>
    have follows := mayFollowHash_of_reach reaches
    have alsoFollows := mayFollowHash_of_reach alsoReaches
    cases other with
    | skipped =>
      obtain rfl : d = '!' := by simpa [mayFollowHash] using alsoFollows
      exact (by decide : ∀ pattern ∈ all, pattern.mayStart '#' = true →
        pattern.mayFollowHash '!' = true → pattern = skipped) pattern listed begins follows
    | regex =>
      obtain rfl : d = '"' := by simpa [mayFollowHash] using alsoFollows
      exact (by decide : ∀ pattern ∈ all, pattern.mayStart '#' = true →
        pattern.mayFollowHash '"' = true → pattern = regex) pattern listed begins follows
    | _ => contradiction
  · cases other with
    | skipped =>
      apply eq_skipped_of_mayStart _ listed begins
      simpa [mayStart, hash] using alsoBegins
    | string =>
      obtain rfl : c = '"' := by simpa [mayStart] using alsoBegins
      exact (by decide : ∀ pattern ∈ all, pattern.mayStart '"' = true → pattern = string)
        pattern listed begins
    | character =>
      obtain rfl : c = '\\' := by simpa [mayStart] using alsoBegins
      exact (by decide : ∀ pattern ∈ all, pattern.mayStart '\\' = true → pattern = character)
        pattern listed begins
    | regex => exact absurd (by simpa [mayStart] using alsoBegins) hash
    | _ => contradiction

theorem elim_closingQuote_append {text : List Char} {opening : Nat}
    (closed : (closingQuote text).elim 0 (· + opening) ≠ 0) (rest : List Char) :
    (closingQuote (text ++ rest)).elim 0 (· + opening) = (closingQuote text).elim 0 (· + opening) := by
  cases found : closingQuote text with
  | none => simp [found] at closed
  | some length => rw [closingQuote_append found rest]

/-- A token is matched no farther when a terminator follows. -/
theorem reach_append_of_reaches {pattern : Pattern} {text rest : List Char} (ends : Ends rest)
    (listed : pattern ∈ all) (token : pattern ≠ .skipped) (reaches : 0 < pattern.reach text) :
    pattern.reach (text ++ rest) = pattern.reach text := by
  have nonempty : text ≠ [] := by
    rintro rfl
    rw [reach_nil] at reaches
    contradiction
  cases takes : pattern.takesTerminators with
  | false => exact reach_append_ends ends nonempty listed takes
  | true =>
  obtain ⟨c, text, rfl⟩ := List.exists_cons_of_ne_nil nonempty
  have begins := mayStart_of_reach reaches
  cases pattern with
  | skipped => contradiction
  | string =>
    obtain rfl : c = '"' := by simpa [mayStart] using begins
    exact elim_closingQuote_append (Nat.pos_iff_ne_zero.1 reaches) rest
  | regex =>
    obtain rfl : c = '#' := by simpa [mayStart] using begins
    cases text with
    | nil => contradiction
    | cons d text =>
    obtain rfl : d = '"' := by simpa [mayFollowHash] using mayFollowHash_of_reach reaches
    exact elim_closingQuote_append (Nat.pos_iff_ne_zero.1 reaches) rest
  | character =>
    obtain rfl : c = '\\' := by simpa [mayStart] using begins
    cases text with
    | nil => contradiction
    | cons d text =>
    rw [List.cons_append, reach_character, reach_character,
      characterReach_append_ends ends (List.cons_ne_nil d text)]
  | _ => contradiction

/-- What is taken for a token stays that token where a terminator follows the
text. -/
theorem longest?_append_ends {text rest : List Char} {pattern : Pattern} {length : Nat}
    (ends : Ends rest) (chosen : longest? text = some (pattern, length))
    (token : pattern ≠ .skipped) : longest? (text ++ rest) = some (pattern, length) := by
  obtain ⟨before, after, listed, rfl, wins⟩ := wins_of_longest? chosen
  have member : pattern ∈ all := by simp [listed]
  have nonempty : text ≠ [] := by
    rintro rfl
    exact absurd wins.reaches (by rw [reach_nil]; decide)
  have same := reach_append_of_reaches ends member token wins.reaches
  have others (other : Pattern) (alsoListed : other ∈ all) :
      other.reach (text ++ rest) ≤ other.reach text := by
    cases takes : other.takesTerminators with
    | false => exact Nat.le_of_eq (reach_append_ends ends nonempty alsoListed takes)
    | true =>
      rcases Nat.eq_zero_or_pos (other.reach (text ++ rest)) with none | reaches
      · rw [none]
        exact Nat.zero_le _
      · obtain rfl := eq_of_takesTerminators member takes (same ▸ wins.reaches) reaches
        exact Nat.le_of_eq same
  have still : Wins (text ++ rest) before pattern after := by
    refine wins.of_le same fun other rival => others other ?_
    rw [listed]
    simp only [List.mem_append, List.mem_cons] at rival ⊢
    exact rival.imp_right .inr
  rw [longest?_of_wins listed still, same]

end Pattern

end VarDoc
