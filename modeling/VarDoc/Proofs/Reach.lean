import VarDoc.Token.Lexer

/-! How far patterns reach. A longer text is matched at least as far, and what
is matched of a text is matched on its own, so the lexeme of a token is the
same token when it is lexed alone. -/

set_option autoImplicit false

namespace VarDoc

section
variable {test : Char → Bool}

theorem run_cons_of_true {c : Char} (passes : test c = true) (text : List Char) :
    run test (c :: text) = run test text + 1 := by
  simp [run, passes]

theorem run_cons_of_false {c : Char} (fails : test c = false) (text : List Char) :
    run test (c :: text) = 0 := by
  simp [run, fails]

theorem run_le_length (text : List Char) : run test text ≤ text.length :=
  (List.takeWhile_sublist test).length_le

theorem run_eq_length_iff {text : List Char} :
    run test text = text.length ↔ ∀ c ∈ text, test c = true := by
  induction text with
  | nil => simp [run]
  | cons c text ih =>
    cases passes : test c with
    | true => simp [run_cons_of_true passes, passes, ih]
    | false => simp [run_cons_of_false passes, passes]

theorem take_run (text : List Char) : text.take (run test text) = text.takeWhile test := by
  induction text with
  | nil => rfl
  | cons c text ih =>
    cases passes : test c with
    | true => rw [run_cons_of_true passes, List.take_succ_cons, ih, List.takeWhile_cons_of_pos passes]
    | false =>
      rw [run_cons_of_false passes, List.take_zero, List.takeWhile_cons_of_neg (by simp [passes])]

theorem mem_take_run {text : List Char} {c : Char} (member : c ∈ text.take (run test text)) :
    test c = true := by
  rw [take_run] at member
  exact List.all_eq_true.1 List.all_takeWhile c member

theorem run_take_run (text : List Char) : run test (text.take (run test text)) = run test text := by
  have whole : run test (text.take (run test text)) = (text.take (run test text)).length :=
    run_eq_length_iff.2 fun _ member => mem_take_run member
  rw [whole, List.length_take, Nat.min_eq_left (run_le_length text)]

theorem run_le_append (front back : List Char) : run test front ≤ run test (front ++ back) := by
  induction front with
  | nil => exact Nat.zero_le _
  | cons c front ih =>
    cases passes : test c with
    | true =>
      rw [List.cons_append, run_cons_of_true passes, run_cons_of_true passes]
      exact Nat.succ_le_succ ih
    | false => rw [run_cons_of_false passes]; exact Nat.zero_le _

theorem run_append {front back : List Char} (stops : ∀ c ∈ back.head?, test c = false) :
    run test (front ++ back) = run test front := by
  induction front with
  | nil =>
    cases back with
    | nil => rfl
    | cons c back => exact run_cons_of_false (stops c rfl) back
  | cons c front ih =>
    cases passes : test c with
    | true => rw [List.cons_append, run_cons_of_true passes, run_cons_of_true passes, ih]
    | false => rw [List.cons_append, run_cons_of_false passes, run_cons_of_false passes]

end

attribute [local simp] closingQuote characterReach Pattern.numberReach Pattern.reach

theorem closingQuote_le {text : List Char} {length : Nat} (closed : closingQuote text = some length) :
    length ≤ text.length := by
  fun_induction closingQuote text generalizing length with
  | case1 => contradiction
  | case2 => cases closed; simp
  | case3 _ rest ih =>
    obtain ⟨inner, found, rfl⟩ := Option.map_eq_some_iff.1 closed
    have := ih found
    simp; omega
  | case4 => contradiction
  | case5 _ rest _ _ _ ih =>
    obtain ⟨inner, found, rfl⟩ := Option.map_eq_some_iff.1 closed
    have := ih found
    simp; omega

theorem closingQuote_take_append {text : List Char} {length : Nat}
    (closed : closingQuote text = some length) (rest : List Char) :
    closingQuote (text.take length ++ rest) = some length := by
  fun_induction closingQuote text generalizing length with
  | case1 => contradiction
  | case2 =>
    cases closed
    rfl
  | case3 _ tail ih =>
    obtain ⟨inner, found, rfl⟩ := Option.map_eq_some_iff.1 closed
    simp only [List.take_succ_cons, List.cons_append, closingQuote, ih found, Option.map_some]
  | case4 => contradiction
  | case5 c tail notQuote notEscape notLone ih =>
    obtain ⟨inner, found, rfl⟩ := Option.map_eq_some_iff.1 closed
    have plain : c ≠ '\\' := by
      rintro rfl
      cases tail with
      | nil => exact notLone rfl rfl
      | cons d more => exact notEscape d more rfl rfl
    rw [List.take_succ_cons, List.cons_append, closingQuote, ih found, Option.map_some]
    · exact notQuote
    · exact fun _ _ same => absurd same plain
    · exact fun same => absurd same plain

/-- What can stand between quotes: some character follows every backslash, and
every quote follows one. -/
inductive Enclosed : List Char → Prop where
  | nil : Enclosed []
  | plain {c : Char} {rest : List Char} (notQuote : c ≠ '"') (notBackslash : c ≠ '\\')
    (further : Enclosed rest) : Enclosed (c :: rest)
  | pair {c : Char} {rest : List Char} (further : Enclosed rest) : Enclosed ('\\' :: c :: rest)

theorem closingQuote_eq_length {text : List Char} (closed : closingQuote text = some text.length) :
    ∃ body, text = body ++ ['"'] ∧ Enclosed body := by
  fun_induction closingQuote text with
  | case1 => contradiction
  | case2 rest =>
    have empty : rest = [] := by simpa using closed
    exact ⟨[], by rw [empty]; rfl, .nil⟩
  | case3 c rest ih =>
    obtain ⟨inner, found, same⟩ := Option.map_eq_some_iff.1 closed
    obtain rfl : inner = rest.length := by simpa using same
    obtain ⟨body, rfl, enclosed⟩ := ih found
    exact ⟨'\\' :: c :: body, rfl, .pair enclosed⟩
  | case4 => contradiction
  | case5 c rest notQuote notEscape _ ih =>
    obtain ⟨inner, found, same⟩ := Option.map_eq_some_iff.1 closed
    obtain rfl : inner = rest.length := by simpa using same
    obtain ⟨body, rfl, enclosed⟩ := ih found
    have notBackslash : c ≠ '\\' := by
      rintro rfl
      cases body with
      | nil => exact notEscape '"' [] rfl rfl
      | cons d more => exact notEscape d (more ++ ['"']) rfl rfl
    exact ⟨c :: body, rfl, .plain notQuote notBackslash enclosed⟩

theorem closingQuote_take {text : List Char} {length : Nat}
    (closed : closingQuote text = some length) : closingQuote (text.take length) = some length := by
  simpa using closingQuote_take_append closed []

theorem closingQuote_append {text : List Char} {length : Nat}
    (closed : closingQuote text = some length) (rest : List Char) :
    closingQuote (text ++ rest) = some length := by
  have split := closingQuote_take_append closed (text.drop length ++ rest)
  rwa [← List.append_assoc, List.take_append_drop] at split

theorem characterReach_known {text name : List Char}
    (known : characterNames.find? (·.isPrefixOf text) = some name) :
    characterReach text = name.length := by
  simp only [characterReach, known]

theorem characterReach_code (rest : List Char) :
    characterReach ('u' :: rest) = if run isHexDigit (rest.take 4) = 4 then 5 else 1 := rfl

theorem characterReach_octal (rest : List Char) :
    characterReach ('o' :: rest) = 1 + run isOctalDigit (rest.take 3) := rfl

theorem characterReach_plain {c : Char} {rest : List Char}
    (unknown : characterNames.find? (·.isPrefixOf (c :: rest)) = none) (notCode : c ≠ 'u')
    (notOctal : c ≠ 'o') : characterReach (c :: rest) = if Text.isBlank c then 0 else 1 := by
  simp only [characterReach, unknown]

theorem isPrefixOf_append_right {wanted text : List Char} (fits : wanted.isPrefixOf text = true)
    (rest : List Char) : wanted.isPrefixOf (text ++ rest) = true :=
  List.isPrefixOf_iff_prefix.2 ((List.isPrefixOf_iff_prefix.1 fits).trans (List.prefix_append _ _))

/-- No name of a character begins another, so a text has at most one of them. -/
theorem characterNames_unique {text name other : List Char} (known : name ∈ characterNames)
    (fits : name.isPrefixOf text = true) (alsoKnown : other ∈ characterNames)
    (alsoFits : other.isPrefixOf text = true) : name = other := by
  have apart : ∀ one ∈ characterNames, ∀ two ∈ characterNames,
      one.isPrefixOf two = true → one = two := by decide +kernel
  rcases List.prefix_or_prefix_of_prefix (List.isPrefixOf_iff_prefix.1 fits)
    (List.isPrefixOf_iff_prefix.1 alsoFits) with within | within
  · exact apart _ known _ alsoKnown (List.isPrefixOf_iff_prefix.2 within)
  · exact (apart _ alsoKnown _ known (List.isPrefixOf_iff_prefix.2 within)).symm

theorem find?_characterNames_eq_some {text name : List Char} :
    characterNames.find? (·.isPrefixOf text) = some name ↔
      name ∈ characterNames ∧ name.isPrefixOf text = true := by
  have sound {other : List Char} (found : characterNames.find? (·.isPrefixOf text) = some other) :
      other ∈ characterNames ∧ other.isPrefixOf text = true := by
    have fits := List.find?_some found
    exact ⟨List.mem_of_find?_eq_some found, fits⟩
  constructor
  · exact sound
  · rintro ⟨known, fits⟩
    cases found : characterNames.find? (·.isPrefixOf text) with
    | none => exact absurd fits (List.find?_eq_none.1 found name known)
    | some other =>
      rw [characterNames_unique known fits (sound found).1 (sound found).2]

theorem characterReach_le_length (text : List Char) : characterReach text ≤ text.length := by
  cases found : characterNames.find? (·.isPrefixOf text) with
  | some name =>
    rw [characterReach_known found]
    exact (List.isPrefixOf_iff_prefix.1 (find?_characterNames_eq_some.1 found).2).length_le
  | none =>
    cases text with
    | nil => exact Nat.le_refl 0
    | cons c more =>
      rw [List.length_cons]
      by_cases code : c = 'u'
      · have bound : run isHexDigit (more.take 4) ≤ (more.take 4).length := run_le_length _
        rw [List.length_take] at bound
        rw [code, characterReach_code]
        split <;> omega
      by_cases octal : c = 'o'
      · have bound : run isOctalDigit (more.take 3) ≤ (more.take 3).length := run_le_length _
        rw [List.length_take] at bound
        rw [octal, characterReach_octal]
        omega
      · rw [characterReach_plain found code octal]
        split <;> omega

theorem characterReach_le_append (text rest : List Char) :
    characterReach text ≤ characterReach (text ++ rest) := by
  cases found : characterNames.find? (·.isPrefixOf text) with
  | some name =>
    obtain ⟨known, fits⟩ := find?_characterNames_eq_some.1 found
    have still := find?_characterNames_eq_some.2 ⟨known, isPrefixOf_append_right fits rest⟩
    apply Nat.le_of_eq
    rw [characterReach_known found, characterReach_known still]
  | none =>
    cases text with
    | nil => exact Nat.zero_le _
    | cons c more =>
      rw [List.cons_append]
      by_cases code : c = 'u'
      · rw [code, characterReach_code, characterReach_code]
        have grows : run isHexDigit (more.take 4) ≤ run isHexDigit ((more ++ rest).take 4) := by
          rw [List.take_append]
          exact run_le_append _ _
        have bound : run isHexDigit ((more ++ rest).take 4) ≤ ((more ++ rest).take 4).length :=
          run_le_length _
        rw [List.length_take] at bound
        split <;> split <;> omega
      by_cases octal : c = 'o'
      · rw [octal, characterReach_octal, characterReach_octal, List.take_append]
        exact Nat.add_le_add_left (run_le_append _ _) 1
      · rw [characterReach_plain found code octal]
        cases longer : characterNames.find? (·.isPrefixOf (c :: (more ++ rest))) with
        | none =>
          apply Nat.le_of_eq
          rw [characterReach_plain longer code octal]
        | some name =>
          have nonempty : ∀ name ∈ characterNames, 1 ≤ name.length := by decide +kernel
          rw [characterReach_known longer]
          have := nonempty name (find?_characterNames_eq_some.1 longer).1
          split <;> omega

theorem characterReach_take (text : List Char) :
    characterReach (text.take (characterReach text)) = characterReach text := by
  cases found : characterNames.find? (·.isPrefixOf text) with
  | some name =>
    obtain ⟨known, fits⟩ := find?_characterNames_eq_some.1 found
    obtain ⟨rest, rfl⟩ := List.isPrefixOf_iff_prefix.1 fits
    rw [characterReach_known found, List.take_left]
    exact (by decide +kernel : ∀ name ∈ characterNames, characterReach name = name.length) name known
  | none =>
    cases text with
    | nil => rfl
    | cons c more =>
      by_cases code : c = 'u'
      · rw [code, characterReach_code]
        split
        next four =>
          rw [List.take_succ_cons, characterReach_code, List.take_take, Nat.min_self, if_pos four]
        next => rfl
      by_cases octal : c = 'o'
      · rw [octal, characterReach_octal, Nat.add_comm, List.take_succ_cons, characterReach_octal,
          List.take_take, Nat.min_comm, ← List.take_take, run_take_run, Nat.add_comm]
      · rw [characterReach_plain found code octal]
        split
        next => rfl
        next visible =>
          have unknown : characterNames.find? (·.isPrefixOf [c]) = none := by
            rw [List.find?_eq_none] at found ⊢
            intro name known fits
            exact found name known (isPrefixOf_append_right fits more)
          rw [List.take_succ_cons, List.take_zero, characterReach_plain unknown code octal,
            if_neg visible]

namespace Pattern

def past (opening inner : Nat) : Nat := if inner = 0 then 0 else opening + inner

theorem past_eq {opening inner more : Nat} (reached : inner = more + 1) :
    past opening inner = more + (opening + 1) := by
  rw [past, if_neg (by omega)]
  omega

theorem le_past {opening inner more larger : Nat} (reached : inner = more + 1)
    (grows : inner ≤ larger) : more + (opening + 1) ≤ past opening larger := by
  rw [past, if_neg (by omega)]
  omega

theorem reach_symbolicValue (rest : List Char) :
    symbolicValue.reach ('#' :: '#' :: rest) = past 2 (run (fun c => c.isAlpha || c == '-') rest) := by
  rw [reach]
  cases run (fun c => c.isAlpha || c == '-') rest with
  | zero => rfl
  | succ letters => exact Nat.add_comm _ 2

theorem reach_character (rest : List Char) :
    character.reach ('\\' :: rest) = past 1 (characterReach rest) := by
  rw [reach]
  cases characterReach rest with
  | zero => rfl
  | succ characters => exact Nat.add_comm _ 1

theorem reach_signed {c : Char} (sign : (c == '+' || c == '-') = true) (rest : List Char) :
    number.reach (c :: rest) = past 1 (numberReach rest) := by
  rw [reach, if_pos sign]
  cases numberReach rest with
  | zero => rfl
  | succ digits => exact Nat.add_comm _ 1

theorem reach_unsigned {c : Char} (unsigned : ¬(c == '+' || c == '-') = true) (rest : List Char) :
    number.reach (c :: rest) = numberReach (c :: rest) := by
  rw [reach, if_neg unsigned]

theorem reach_keyword (rest : List Char) :
    keyword.reach (':' :: rest) = past 1 (run isConstituent rest) := by
  rw [reach]
  cases run isConstituent rest with
  | zero => rfl
  | succ characters => exact Nat.add_comm _ 1

theorem reach_gap {c : Char} (gap : isGap c = true) (rest : List Char) :
    skipped.reach (c :: rest) = run isGap (c :: rest) := by
  rw [reach]
  · rintro _ same
    rw [(List.cons.inj same).1] at gap
    exact absurd gap (by decide)
  · rintro _ same
    rw [(List.cons.inj same).1] at gap
    exact absurd gap (by decide)

theorem reach_nil (pattern : Pattern) : pattern.reach [] = 0 := by
  cases pattern with
  | fixed wanted kind =>
    cases wanted with
    | nil => rfl
    | cons => rfl
  | _ => rfl

theorem numberReach_le_length (text : List Char) : numberReach text ≤ text.length := by
  cases text with
  | nil => exact Nat.le_refl 0
  | cons c text =>
    rw [numberReach, List.length_cons, Nat.add_comm text.length]
    split
    · exact Nat.add_le_add_left (run_le_length text) 1
    · exact Nat.zero_le _

theorem numberReach_le_append (text rest : List Char) :
    numberReach text ≤ numberReach (text ++ rest) := by
  cases text with
  | nil => exact Nat.zero_le _
  | cons c text =>
    rw [List.cons_append, numberReach, numberReach]
    split
    · exact Nat.add_le_add_left (run_le_append _ _) 1
    · exact Nat.le_refl 0

theorem numberReach_take (text : List Char) :
    numberReach (text.take (numberReach text)) = numberReach text := by
  cases text with
  | nil => rfl
  | cons c text =>
    rw [numberReach]
    split
    next digit => rw [Nat.add_comm, List.take_succ_cons, numberReach, if_pos digit, run_take_run,
      Nat.add_comm]
    next => rfl

theorem elim_closingQuote_le (text : List Char) (opening : Nat) :
    (closingQuote text).elim 0 (· + opening) ≤ text.length + opening := by
  cases closed : closingQuote text with
  | none => exact Nat.zero_le _
  | some length => exact Nat.add_le_add_right (closingQuote_le closed) opening

theorem elim_closingQuote_le_append (text rest : List Char) (opening : Nat) :
    (closingQuote text).elim 0 (· + opening) ≤ (closingQuote (text ++ rest)).elim 0 (· + opening) := by
  cases closed : closingQuote text with
  | none => exact Nat.zero_le _
  | some length =>
    apply Nat.le_of_eq
    rw [closingQuote_append closed rest]

theorem reach_le_length (pattern : Pattern) (text : List Char) :
    pattern.reach text ≤ text.length := by
  fun_cases reach pattern text with
  | case1 text | case20 _ text =>
    rw [List.length_cons, Nat.add_comm]
    exact Nat.add_le_add_right (run_le_length text) 1
  | case2 text | case8 text | case9 _ text =>
    rw [List.length_cons, List.length_cons, Nat.add_comm]
    exact Nat.add_le_add_right (run_le_length text) 2
  | case3 => exact run_le_length text
  | case4 _ wanted kind fits => exact (List.isPrefixOf_iff_prefix.1 fits).length_le
  | case7 text letters reached =>
    have bound := reached ▸ run_le_length text
    simp only [List.length_cons]
    omega
  | case11 text => exact elim_closingQuote_le text 1
  | case12 text => exact elim_closingQuote_le text 2
  | case14 text characters reached =>
    have bound := reached ▸ characterReach_le_length text
    simp only [List.length_cons]
    omega
  | case16 _ text _ digits reached =>
    have bound := reached ▸ numberReach_le_length text
    simp only [List.length_cons]
    omega
  | case17 c text => exact numberReach_le_length (c :: text)
  | case19 text characters reached =>
    have bound := reached ▸ run_le_length text
    simp only [List.length_cons]
    omega
  | _ => exact Nat.zero_le _

theorem reach_le_append (pattern : Pattern) (text rest : List Char) :
    pattern.reach text ≤ pattern.reach (text ++ rest) := by
  fun_cases reach pattern text with
  | case1 => exact Nat.add_le_add_left (run_le_append _ _) 1
  | case2 => exact Nat.add_le_add_left (run_le_append _ _) 2
  | case3 =>
    cases text with
    | nil => exact Nat.zero_le _
    | cons c text =>
      cases gap : isGap c with
      | true =>
        rw [List.cons_append, reach_gap gap]
        exact run_le_append (c :: text) rest
      | false =>
        rw [run_cons_of_false gap]
        exact Nat.zero_le _
  | case4 _ wanted kind fits =>
    apply Nat.le_of_eq
    rw [reach, if_pos (isPrefixOf_append_right fits rest)]
  | case7 text letters reached =>
    rw [List.cons_append, List.cons_append, reach_symbolicValue]
    exact le_past reached (run_le_append text rest)
  | case8 => exact Nat.add_le_add_left (run_le_append _ _) 2
  | case9 c text letter =>
    rw [List.cons_append, List.cons_append, reach, if_pos letter]
    exact Nat.add_le_add_left (run_le_append _ _) 2
  | case11 => exact elim_closingQuote_le_append _ _ 1
  | case12 => exact elim_closingQuote_le_append _ _ 2
  | case14 text characters reached =>
    rw [List.cons_append, reach_character]
    exact le_past reached (characterReach_le_append text rest)
  | case16 c text sign digits reached =>
    rw [List.cons_append, reach_signed sign]
    exact le_past reached (numberReach_le_append text rest)
  | case17 c text unsigned =>
    rw [List.cons_append, reach_unsigned unsigned]
    exact numberReach_le_append (c :: text) rest
  | case19 text characters reached =>
    rw [List.cons_append, reach_keyword]
    exact le_past reached (run_le_append text rest)
  | case20 c text starts =>
    rw [List.cons_append, reach, if_pos starts]
    exact Nat.add_le_add_left (run_le_append _ _) 1
  | _ => exact Nat.zero_le _

/-- What is matched is matched on its own. -/
theorem reach_take (pattern : Pattern) (text : List Char) :
    pattern.reach (text.take (pattern.reach text)) = pattern.reach text := by
  fun_cases reach pattern text with
  | case1 text =>
    rw [Nat.add_comm, List.take_succ_cons, reach, run_take_run, Nat.add_comm]
  | case2 text =>
    rw [Nat.add_comm, List.take_succ_cons, List.take_succ_cons, reach, run_take_run, Nat.add_comm]
  | case3 =>
    cases text with
    | nil => rfl
    | cons c text =>
      cases gap : isGap c with
      | true =>
        have same : run isGap ((c :: text).take (run isGap (c :: text))) = run isGap (c :: text) :=
          run_take_run _
        rw [run_cons_of_true gap, List.take_succ_cons] at same ⊢
        rw [reach_gap gap, same]
      | false => rw [run_cons_of_false gap, List.take_zero, reach_nil]
  | case4 _ wanted kind fits =>
    obtain ⟨rest, rfl⟩ := List.isPrefixOf_iff_prefix.1 fits
    rw [List.take_left, reach, if_pos (by simp)]
  | case7 text letters reached =>
    rw [Nat.succ_eq_add_one] at reached
    rw [List.take_succ_cons, List.take_succ_cons, reach_symbolicValue, ← reached, run_take_run,
      past_eq reached]
  | case8 =>
    rw [Nat.add_comm, List.take_succ_cons, List.take_succ_cons, reach, run_take_run, Nat.add_comm]
  | case9 c text letter =>
    rw [Nat.add_comm, List.take_succ_cons, List.take_succ_cons, reach, if_pos letter, run_take_run,
      Nat.add_comm]
  | case11 text =>
    cases closed : closingQuote text with
    | none => exact reach_nil _
    | some length => simp [closingQuote_take closed]
  | case12 text =>
    cases closed : closingQuote text with
    | none => exact reach_nil _
    | some length => simp [closingQuote_take closed]
  | case14 text characters reached =>
    rw [Nat.succ_eq_add_one] at reached
    rw [List.take_succ_cons, reach_character, ← reached, characterReach_take, past_eq reached]
  | case16 c text sign digits reached =>
    rw [Nat.succ_eq_add_one] at reached
    rw [List.take_succ_cons, reach_signed sign, ← reached, numberReach_take, past_eq reached]
  | case17 c text unsigned =>
    have same := numberReach_take (c :: text)
    rw [numberReach] at same ⊢
    split at same
    next digit =>
      rw [if_pos digit]
      rw [Nat.add_comm, List.take_succ_cons] at same ⊢
      rw [reach_unsigned unsigned, same]
    next other =>
      rw [if_neg other, List.take_zero, reach_nil]
  | case19 text characters reached =>
    rw [Nat.succ_eq_add_one] at reached
    rw [List.take_succ_cons, reach_keyword, ← reached, run_take_run, past_eq reached]
  | case20 c text starts =>
    rw [Nat.add_comm, List.take_succ_cons, reach, if_pos starts, run_take_run, Nat.add_comm]
  | _ => exact reach_nil _

section
variable {text : List Char}

theorem foldl_farther_lt {patterns : List Pattern} {best : Option (Pattern × Nat)} {bound : Nat}
    (before : best.elim 0 Prod.snd < bound) (shorter : ∀ pattern ∈ patterns, pattern.reach text < bound) :
    (patterns.foldl (farther text) best).elim 0 Prod.snd < bound := by
  induction patterns generalizing best with
  | nil => exact before
  | cons first rest ih =>
    rw [List.foldl_cons]
    refine ih ?_ fun pattern member => shorter pattern (List.mem_cons_of_mem _ member)
    unfold farther
    split
    · exact shorter first List.mem_cons_self
    · exact before

theorem foldl_farther_keeps {patterns : List Pattern} {best : Pattern × Nat}
    (shorter : ∀ pattern ∈ patterns, pattern.reach text ≤ best.2) :
    patterns.foldl (farther text) (some best) = some best := by
  induction patterns with
  | nil => rfl
  | cons first rest ih =>
    have kept : farther text (some best) first = some best :=
      if_neg (Nat.not_lt.2 (shorter first List.mem_cons_self))
    rw [List.foldl_cons, kept]
    exact ih fun pattern member => shorter pattern (List.mem_cons_of_mem _ member)

/-- The pattern reaches into the text, and farther than the patterns before it;
those after it reach no farther. -/
structure Wins (text : List Char) (before : List Pattern) (pattern : Pattern)
    (after : List Pattern) : Prop where
  reaches : 0 < pattern.reach text
  earlier : ∀ other ∈ before, other.reach text < pattern.reach text
  later : ∀ other ∈ after, other.reach text ≤ pattern.reach text

theorem Wins.of_le {before after : List Pattern} {pattern : Pattern} {other : List Char}
    (wins : Wins text before pattern after) (same : pattern.reach other = pattern.reach text)
    (noFarther : ∀ rival ∈ before ++ after, rival.reach other ≤ rival.reach text) :
    Wins other before pattern after := by
  constructor
  · rw [same]
    exact wins.reaches
  · intro rival member
    rw [same]
    exact Nat.lt_of_le_of_lt (noFarther rival (List.mem_append_left _ member))
      (wins.earlier rival member)
  · intro rival member
    rw [same]
    exact Nat.le_trans (noFarther rival (List.mem_append_right _ member))
      (wins.later rival member)

theorem longest?_of_wins {before after : List Pattern} {pattern : Pattern}
    (listed : all = before ++ pattern :: after) (wins : Wins text before pattern after) :
    longest? text = some (pattern, pattern.reach text) := by
  have shorter : (before.foldl (farther text) none).elim 0 Prod.snd < pattern.reach text :=
    foldl_farther_lt wins.reaches wins.earlier
  rw [longest?, listed, List.foldl_append, List.foldl_cons]
  have taken : farther text (before.foldl (farther text) none) pattern =
      some (pattern, pattern.reach text) := if_pos shorter
  rw [taken]
  exact foldl_farther_keeps wins.later

theorem of_foldl_farther {patterns : List Pattern} {best : Option (Pattern × Nat)}
    {pattern : Pattern} {length : Nat}
    (chosen : patterns.foldl (farther text) best = some (pattern, length)) :
    (best = some (pattern, length) ∧ ∀ other ∈ patterns, other.reach text ≤ length) ∨
      ∃ before after, patterns = before ++ pattern :: after ∧ length = pattern.reach text ∧
        best.elim 0 Prod.snd < length ∧ Wins text before pattern after := by
  induction patterns generalizing best with
  | nil => exact .inl ⟨chosen, by simp⟩
  | cons first rest ih =>
    rw [List.foldl_cons] at chosen
    by_cases reaches : best.elim 0 Prod.snd < first.reach text
    · rw [farther, if_pos reaches] at chosen
      rcases ih chosen with ⟨same, shorter⟩ | ⟨before, after, rfl, rfl, farthest, wins⟩
      · cases same
        exact .inr ⟨[], rest, rfl, rfl, reaches,
          ⟨Nat.lt_of_le_of_lt (Nat.zero_le _) reaches, by simp, shorter⟩⟩
      · refine .inr ⟨first :: before, after, rfl, rfl, Nat.lt_trans reaches farthest,
          ⟨wins.reaches, ?_, wins.later⟩⟩
        intro other member
        rcases List.mem_cons.1 member with rfl | earlier
        · exact farthest
        · exact wins.earlier other earlier
    · rw [farther, if_neg reaches] at chosen
      rcases ih chosen with ⟨same, shorter⟩ | ⟨before, after, rfl, rfl, farthest, wins⟩
      · refine .inl ⟨same, fun other member => ?_⟩
        rcases List.mem_cons.1 member with rfl | later
        · rw [same] at reaches
          exact Nat.not_lt.1 reaches
        · exact shorter other later
      · refine .inr ⟨first :: before, after, rfl, rfl, farthest, ⟨wins.reaches, ?_, wins.later⟩⟩
        intro other member
        rcases List.mem_cons.1 member with rfl | earlier
        · exact Nat.lt_of_le_of_lt (Nat.not_lt.1 reaches) farthest
        · exact wins.earlier other earlier

theorem wins_of_longest? {pattern : Pattern} {length : Nat}
    (chosen : longest? text = some (pattern, length)) :
    ∃ before after, all = before ++ pattern :: after ∧ length = pattern.reach text ∧
      Wins text before pattern after := by
  rcases of_foldl_farther chosen with ⟨impossible, -⟩ | ⟨before, after, listed, same, -, wins⟩
  · contradiction
  · exact ⟨before, after, listed, same, wins⟩

/-- The lexeme of a token, lexed alone, is the same token. -/
theorem longest?_take {text : List Char} {pattern : Pattern} {length : Nat}
    (chosen : longest? text = some (pattern, length)) :
    longest? (text.take length) = some (pattern, length) := by
  obtain ⟨before, after, listed, rfl, wins⟩ := wins_of_longest? chosen
  have shorter (other : Pattern) :
      other.reach (text.take (pattern.reach text)) ≤ other.reach text := by
    have grows := other.reach_le_append (text.take (pattern.reach text))
      (text.drop (pattern.reach text))
    rwa [List.take_append_drop] at grows
  have whole := pattern.reach_take text
  rw [longest?_of_wins listed (wins.of_le whole fun other _ => shorter other), whole]

end

end Pattern

end VarDoc
