import VarDoc.Proofs.RegularExpression
import VarDoc.Proofs.Spelling

/-! The patterns of tokens and of skipped text as regular expressions. A text
matches the expression of a pattern from beginning to end just when the pattern
reaches through all of it. -/

set_option autoImplicit false

namespace VarDoc

open Regex

def endings : List ClassItem :=
  [.blank, .one ',', .one ';', .one '(', .one ')', .one '[', .one ']', .one '\x7b', .one '\x7d',
   .one '"', .one '\\', .one '^', .one '@', .one '~', .one '\x60']

def constituents : CharClass := .noneOf endings

def symbolStarts : CharClass :=
  .noneOf (endings ++ [.range '0' '9', .one ':', .one '#', .one '\x27'])

def digits : CharClass := .oneOf [.range '0' '9']

def numberTails : CharClass :=
  .oneOf [.range '0' '9', .range 'a' 'z', .range 'A' 'Z', .one '.', .one '+', .one '/', .one '-']

def signs : CharClass := .oneOf [.one '+', .one '-']

def letters : CharClass := .oneOf [.range 'a' 'z', .range 'A' 'Z']

def symbolicLetters : CharClass := .oneOf [.range 'A' 'Z', .range 'a' 'z', .one '-']

def gaps : CharClass :=
  .oneOf [.one ' ', .one '\t', .one '\r', .one '\n', .one '\x0c', .one ',']

def inLine : CharClass := .noneOf [.one '\n']

def hexDigitClass : CharClass := .oneOf [.range '0' '9', .range 'a' 'f', .range 'A' 'F']

def octalDigits : CharClass := .oneOf [.range '0' '7']

def visible : CharClass := .noneOf [.blank]

def unescaped : CharClass := .noneOf [.one '"', .one '\\']

def quotedBody : Regex :=
  .seq (.star (.either (.char unescaped)
    (.seq (.char (.oneOf [.one '\\'])) (.either (.char inLine) (.char (.oneOf [.one '\n']))))))
    (.char (.oneOf [.one '"']))

def characterBody : Regex :=
  texts (["newline", "space", "tab", "formfeed", "backspace", "return"].map String.toList)
    (.either (.seq (literal ['u']) (exactly 4 (.char hexDigitClass)))
      (.either (.seq (literal ['o']) (.seq (.char octalDigits) (atMost 2 (.char octalDigits))))
        (.char visible)))

namespace Pattern

def declared : Pattern → Regex
  | .skipped =>
    .either (plus (.char gaps))
      (.either (.seq (literal [';']) (.star (.char inLine)))
        (.seq (literal ['#', '!']) (.star (.char inLine))))
  | .fixed wanted _ => literal wanted
  | .symbolicValue => .seq (literal ['#', '#']) (plus (.char symbolicLetters))
  | .namespacedMap =>
    .seq (literal ['#', ':']) (.seq (optional (literal [':'])) (.star (.char constituents)))
  | .tagged => .seq (literal ['#']) (.seq (.char letters) (.star (.char constituents)))
  | .string => .seq (literal ['"']) quotedBody
  | .regex => .seq (literal ['#', '"']) quotedBody
  | .character => .seq (literal ['\\']) characterBody
  | .number => .seq (optional (.char signs)) (.seq (.char digits) (.star (.char numberTails)))
  | .keyword => .seq (literal [':']) (plus (.char constituents))
  | .symbol => .seq (.char symbolStarts) (.star (.char constituents))

def language (pattern : Pattern) : Language Char := pattern.declared.language

end Pattern

section
attribute [local simp] ClassItem.has CharClass.has

theorem has_range_digit (c : Char) : (ClassItem.range '0' '9').has c = c.isDigit := rfl

theorem has_range_lower (c : Char) : (ClassItem.range 'a' 'z').has c = c.isLower := rfl

theorem has_range_upper (c : Char) : (ClassItem.range 'A' 'Z').has c = c.isUpper := by
  rw [ClassItem.has]
  exact (Bool.decide_and _ _).symm

theorem isAlpha_eq (c : Char) : c.isAlpha = (c.isUpper || c.isLower) := rfl

theorem has_constituents (c : Char) : constituents.has c = isConstituent c := by
  simp [constituents, endings, isConstituent, isBoundary, beq_eq_decide]

theorem has_symbolStarts (c : Char) : symbolStarts.has c = isSymbolStart c := by
  rw [symbolStarts, isSymbolStart, ← has_constituents, ← has_range_digit]
  simp [constituents, Bool.and_assoc]

theorem has_digits (c : Char) : digits.has c = c.isDigit := Bool.or_false _

theorem has_letters (c : Char) : letters.has c = c.isAlpha := by
  rw [isAlpha_eq, ← has_range_lower, ← has_range_upper, Bool.or_comm]
  simp [letters]

theorem has_numberTails (c : Char) : numberTails.has c = isNumberTail c := by
  rw [isNumberTail, ← has_letters, ← has_range_digit]
  simp [numberTails, letters, Bool.or_assoc]

theorem has_signs (c : Char) : signs.has c = (c == '+' || c == '-') := by simp [signs]

theorem has_symbolicLetters (c : Char) : symbolicLetters.has c = (c.isAlpha || c == '-') := by
  rw [isAlpha_eq, ← has_range_lower, ← has_range_upper]
  simp [symbolicLetters, Bool.or_assoc]

theorem has_gaps (c : Char) : gaps.has c = isGap c := by simp [gaps, isGap, Bool.or_assoc]

theorem has_inLine (c : Char) : inLine.has c = (c != '\n') := by simp [inLine, bne]

theorem has_unescaped (c : Char) : unescaped.has c = (c != '"' && c != '\\') := by
  simp [unescaped, bne]

theorem has_hexDigitClass (c : Char) : hexDigitClass.has c = isHexDigit c := by
  rw [isHexDigit, ← has_range_digit]
  simp [hexDigitClass, Bool.or_assoc]

theorem has_octalDigits (c : Char) : octalDigits.has c = isOctalDigit c := Bool.or_false _

theorem has_visible (c : Char) : visible.has c = !Text.isBlank c := by simp [visible]

end

theorem map_add_eq_some_iff {found : Option Nat} {length more : Nat} :
    found.map (· + more) = some (length + more) ↔ found = some length := by
  cases found <;> simp

theorem mem_quotedBody {text : List Char} :
    text ∈ quotedBody.language ↔ closingQuote text = some text.length := by
  -- One turn of the repetition takes what one call of `closingQuote` steps over.
  fun_induction closingQuote text with
  | case1 =>
    rw [quotedBody, mem_star_seq]
    simp [mem_either_seq, mem_seq_seq]
  | case2 rest =>
    rw [quotedBody, mem_star_seq]
    simp [mem_either_seq, mem_seq_seq, has_unescaped]
  | case3 c rest ih =>
    rw [List.length_cons, List.length_cons, map_add_eq_some_iff, ← ih, quotedBody, mem_star_seq]
    simp [mem_either_seq, mem_seq_seq, has_unescaped, has_inLine, ← or_and_right, ne_or_eq]
  | case4 =>
    rw [quotedBody, mem_star_seq]
    simp [mem_either_seq, mem_seq_seq, has_unescaped]
  | case5 c rest notQuote notEscape notLone ih =>
    have plain : c ≠ '\\' := by
      rintro rfl
      cases rest with
      | nil => exact notLone rfl rfl
      | cons d more => exact notEscape d more rfl rfl
    rw [List.length_cons, map_add_eq_some_iff, ← ih, quotedBody, mem_star_seq]
    simp [mem_either_seq, mem_seq_seq, has_unescaped, plain, show c ≠ '"' from notQuote]

theorem characterReach_single {c : Char} (isVisible : Text.isBlank c = false) :
    characterReach [c] = 1 := by
  have unknown : characterNames.find? (·.isPrefixOf [c]) = none := by
    have longer : ∀ name ∈ characterNames, 1 < name.length := by decide +kernel
    rw [List.find?_eq_none]
    intro name known fits
    have within := (List.isPrefixOf_iff_prefix.1 fits).length_le
    exact absurd (longer name known) (Nat.not_lt.2 within)
  by_cases code : c = 'u'
  · rw [code]
    rfl
  by_cases octal : c = 'o'
  · rw [octal]
    rfl
  · rw [characterReach_plain unknown code octal, isVisible]
    rfl

theorem mem_octalCode {code : List Char} :
    code ∈ (seq (char octalDigits) (atMost 2 (char octalDigits))).language ↔
      code ≠ [] ∧ code.length ≤ 3 ∧ ∀ c ∈ code, isOctalDigit c = true := by
  cases code with
  | nil => simp
  | cons c code =>
    have short : (c :: code).length ≤ 3 ↔ code.length ≤ 2 := Nat.succ_le_succ_iff
    simp only [cons_mem_char_seq, mem_atMost_char, has_octalDigits, List.forall_mem_cons, short]
    simp [and_left_comm]

theorem characterBody_cases {text : List Char} :
    text ∈ characterBody.language ↔ text ∈ characterNames ∨
      (∃ code, (code.length = 4 ∧ ∀ c ∈ code, isHexDigit c = true) ∧ text = 'u' :: code) ∨
      (∃ code, (code ≠ [] ∧ code.length ≤ 3 ∧ ∀ c ∈ code, isOctalDigit c = true) ∧
        text = 'o' :: code) ∨ ∃ c, Text.isBlank c = false ∧ text = [c] := by
  rw [characterBody, mem_texts, mem_either, mem_either, mem_literal_seq, mem_literal_seq, mem_char]
  simp only [mem_exactly_char, mem_octalCode, has_hexDigitClass, has_visible, Bool.not_eq_true',
    List.singleton_append]
  exact Iff.rfl

theorem mem_characterBody {text : List Char} :
    text ∈ characterBody.language ↔ text ≠ [] ∧ characterReach text = text.length := by
  rw [characterBody_cases]
  constructor
  · rintro (known | ⟨code, ⟨four, hex⟩, rfl⟩ | ⟨code, ⟨nonempty, three, octal⟩, rfl⟩ |
      ⟨c, isVisible, rfl⟩)
    · exact (by decide +kernel : ∀ name ∈ characterNames,
        name ≠ [] ∧ characterReach name = name.length) text known
    · refine ⟨List.cons_ne_nil _ _, ?_⟩
      rw [characterReach_code, List.take_of_length_le (Nat.le_of_eq four),
        run_eq_length_iff.2 hex, if_pos four, List.length_cons, four]
    · refine ⟨List.cons_ne_nil _ _, ?_⟩
      rw [characterReach_octal, List.take_of_length_le three, run_eq_length_iff.2 octal,
        List.length_cons, Nat.add_comm]
    · exact ⟨List.cons_ne_nil _ _, characterReach_single isVisible⟩
  · rintro ⟨nonempty, whole⟩
    cases found : characterNames.find? (·.isPrefixOf text) with
    | some name =>
      obtain ⟨known, fits⟩ := find?_characterNames_eq_some.1 found
      rw [characterReach_known found] at whole
      rw [(List.isPrefixOf_iff_prefix.1 fits).eq_of_length whole] at known
      exact .inl known
    | none =>
      obtain ⟨c, more, rfl⟩ := List.exists_cons_of_ne_nil nonempty
      rw [List.length_cons] at whole
      have alone (isVisible : Text.isBlank c = false) (short : more.length = 0) :
          ∃ d, Text.isBlank d = false ∧ c :: more = [d] :=
        ⟨c, isVisible, by rw [List.length_eq_zero_iff.1 short]⟩
      by_cases code : c = 'u'
      · subst code
        rw [characterReach_code] at whole
        split at whole
        next four =>
          rw [List.take_of_length_le (by omega)] at four
          exact .inr (.inl ⟨more, ⟨by omega, run_eq_length_iff.1 (by omega)⟩, rfl⟩)
        next => exact .inr (.inr (.inr (alone rfl (by omega))))
      by_cases octal : c = 'o'
      · subst octal
        rw [characterReach_octal] at whole
        have bound : run isOctalDigit (more.take 3) ≤ (more.take 3).length := run_le_length _
        rw [List.length_take] at bound
        have three : more.length ≤ 3 := by omega
        rw [List.take_of_length_le three] at whole
        by_cases short : more = []
        · exact .inr (.inr (.inr (alone rfl (by rw [short]; rfl))))
        · exact .inr (.inr (.inl ⟨more, ⟨short, three, run_eq_length_iff.1 (by omega)⟩, rfl⟩))
      · rw [characterReach_plain found code octal] at whole
        split at whole
        next => contradiction
        next isVisible =>
          exact .inr (.inr (.inr (alone (by simpa using isVisible) (by omega))))

namespace Pattern

theorem past_eq_iff {opening inner length : Nat} (opens : 0 < opening) :
    past opening inner = length + opening ↔ length ≠ 0 ∧ inner = length := by
  unfold past
  split <;> omega

theorem add_run_eq_iff {test : Char → Bool} {opening : Nat} {text : List Char} :
    opening + run test text = text.length + opening ↔ ∀ c ∈ text, test c = true := by
  rw [Nat.add_comm, Nat.add_right_cancel_iff, run_eq_length_iff]

theorem language_of_opening {pattern : Pattern} {opening : List Char} {inner : Regex}
    (isDeclared : pattern.declared = .seq (literal opening) inner) (nonempty : opening ≠ [])
    (opens : ∀ text, text ≠ [] → pattern.reach text = text.length → ∃ more, text = opening ++ more)
    (inside : ∀ more, more ∈ inner.language ↔
      pattern.reach (opening ++ more) = more.length + opening.length) {text : List Char} :
    text ∈ pattern.language ↔ text ≠ [] ∧ pattern.reach text = text.length := by
  rw [language, isDeclared, mem_literal_seq]
  constructor
  · rintro ⟨more, matched, rfl⟩
    rw [(inside more).1 matched, List.length_append, Nat.add_comm]
    simp [nonempty]
  · rintro ⟨something, whole⟩
    obtain ⟨more, rfl⟩ := opens text something whole
    rw [List.length_append, Nat.add_comm] at whole
    exact ⟨more, (inside more).2 whole, rfl⟩

section
variable {text : List Char}

theorem opens_hash {pattern : Pattern} {second : Char}
    (hash : ∀ c, pattern.mayStart c = (c == '#')) (alone : pattern.reach ['#'] = 0)
    (follows : ∀ c, pattern.mayFollowHash c = (c == second)) (text : List Char) (nonempty : text ≠ [])
    (whole : pattern.reach text = text.length) : ∃ more, text = ['#', second] ++ more := by
  obtain ⟨c, more, rfl, isSecond, -⟩ := starts_hash_of_whole nonempty whole hash alone
  rw [follows, beq_iff_eq] at isSecond
  exact ⟨more, by rw [isSecond]; rfl⟩

theorem opens_with {pattern : Pattern} {first : Char}
    (starts : ∀ c, pattern.mayStart c = (c == first)) (text : List Char) (nonempty : text ≠ [])
    (whole : pattern.reach text = text.length) : ∃ more, text = [first] ++ more := by
  obtain ⟨c, more, rfl, isFirst, -⟩ := starts_of_whole nonempty whole
  rw [starts, beq_iff_eq] at isFirst
  exact ⟨more, by rw [isFirst]; rfl⟩

theorem mem_symbolicValue :
    text ∈ symbolicValue.language ↔ text ≠ [] ∧ symbolicValue.reach text = text.length := by
  refine language_of_opening rfl (by simp) (opens_hash (fun _ => rfl) rfl fun _ => rfl) fun more => ?_
  rw [mem_plus_char, List.cons_append, List.cons_append, reach_symbolicValue]
  simp [past_eq_iff, run_eq_length_iff, has_symbolicLetters]

theorem mem_namespacedMap :
    text ∈ namespacedMap.language ↔ text ≠ [] ∧ namespacedMap.reach text = text.length := by
  refine language_of_opening rfl (by simp) (opens_hash (fun _ => rfl) rfl fun _ => rfl) fun more => ?_
  rw [mem_optional_seq, mem_star_char, mem_literal_seq, List.cons_append,
    List.singleton_append, reach]
  simp only [List.length_cons, List.length_nil, Nat.zero_add, Nat.reduceAdd, add_run_eq_iff,
    has_constituents, mem_star_char]
  refine or_iff_left_of_imp ?_
  rintro ⟨back, inside, rfl⟩
  exact List.forall_mem_cons.2 ⟨rfl, inside⟩

theorem mem_tagged : text ∈ tagged.language ↔ text ≠ [] ∧ tagged.reach text = text.length := by
  refine language_of_opening rfl (by simp) (opens_with fun _ => rfl) fun more => ?_
  cases more with
  | nil => simp [reach]
  | cons c more =>
    rw [cons_mem_char_seq, mem_star_char, List.singleton_append, reach]
    simp only [has_letters, has_constituents, List.length_cons, List.length_nil, Nat.add_assoc,
      Nat.reduceAdd]
    cases letter : c.isAlpha <;> simp [add_run_eq_iff]

theorem mem_string : text ∈ string.language ↔ text ≠ [] ∧ string.reach text = text.length := by
  refine language_of_opening rfl (by simp) (opens_with fun _ => rfl) fun more => ?_
  rw [mem_quotedBody, List.singleton_append, reach]
  cases closingQuote more <;> simp

theorem mem_regex : text ∈ regex.language ↔ text ≠ [] ∧ regex.reach text = text.length := by
  refine language_of_opening rfl (by simp) (opens_hash (fun _ => rfl) rfl fun _ => rfl) fun more => ?_
  rw [mem_quotedBody, List.cons_append, List.singleton_append, reach]
  cases closingQuote more <;> simp

theorem mem_character : text ∈ character.language ↔ text ≠ [] ∧ character.reach text = text.length := by
  refine language_of_opening rfl (by simp) (opens_with fun _ => rfl) fun more => ?_
  rw [mem_characterBody, List.singleton_append, reach_character]
  simp [past_eq_iff]

theorem mem_keyword : text ∈ keyword.language ↔ text ≠ [] ∧ keyword.reach text = text.length := by
  refine language_of_opening rfl (by simp) (opens_with fun _ => rfl) fun more => ?_
  rw [mem_plus_char, List.singleton_append, reach_keyword]
  simp [past_eq_iff, run_eq_length_iff, has_constituents]

theorem mem_symbol : text ∈ symbol.language ↔ text ≠ [] ∧ symbol.reach text = text.length := by
  rw [language, declared]
  cases text with
  | nil => simp
  | cons c text =>
    rw [cons_mem_char_seq, mem_star_char, reach]
    cases starts : isSymbolStart c <;> simp [has_symbolStarts, has_constituents, starts, add_run_eq_iff]

theorem mem_unsigned :
    text ∈ (seq (char digits) (star (char numberTails))).language ↔
      text ≠ [] ∧ numberReach text = text.length := by
  cases text with
  | nil => simp
  | cons c text =>
    rw [cons_mem_char_seq, mem_star_char, numberReach]
    cases digit : c.isDigit <;> simp [has_digits, has_numberTails, digit, add_run_eq_iff]

theorem mem_number : text ∈ number.language ↔ text ≠ [] ∧ number.reach text = text.length := by
  rw [language, declared, mem_optional_seq, mem_unsigned]
  cases text with
  | nil => simp
  | cons c text =>
    rw [cons_mem_char_seq, mem_unsigned, has_signs]
    by_cases sign : (c == '+' || c == '-') = true
    · have notDigit : c.isDigit = false := by
        rcases Bool.or_eq_true_iff.1 sign with plus | minus
        · rw [eq_of_beq plus]
          rfl
        · rw [eq_of_beq minus]
          rfl
      rw [reach_signed sign]
      simp [numberReach, notDigit, sign, past_eq_iff]
    · rw [reach_unsigned sign]
      simp [sign]

theorem mem_skipped : text ∈ skipped.language ↔ text ≠ [] ∧ skipped.reach text = text.length := by
  rw [language, declared, mem_either, mem_either, mem_plus_char, mem_literal_seq, mem_literal_seq]
  simp only [mem_star_char, has_gaps, has_inLine]
  cases text with
  | nil => simp
  | cons c text =>
    by_cases comment : c = ';'
    · subst comment
      simp [reach, isGap, add_run_eq_iff]
    by_cases hash : c = '#'
    · subst hash
      cases text with
      | nil => simp [reach, run, isGap]
      | cons d text =>
        by_cases bang : d = '!'
        · subst bang
          simp [reach, isGap, Nat.add_assoc, add_run_eq_iff]
        · rw [reach_hash_eq_zero (by simpa [mayFollowHash] using bang)]
          simp [bang, isGap]
    · cases gap : isGap c with
      | true =>
        rw [reach_gap gap, run_eq_length_iff]
        simp [comment, hash]
      | false =>
        rw [reach_eq_zero (by simp [mayStart, comment, hash, gap])]
        simp [comment, hash, gap]

theorem mem_fixed {wanted : List Char} {kind : TokenKind} (nonempty : wanted ≠ []) :
    text ∈ (fixed wanted kind).language ↔ text ≠ [] ∧ (fixed wanted kind).reach text = text.length := by
  rw [language, declared, mem_literal, reach]
  constructor
  · rintro rfl
    simp [nonempty]
  · rintro ⟨something, whole⟩
    split at whole
    next fits => exact ((List.isPrefixOf_iff_prefix.1 fits).eq_of_length whole).symm
    next => exact absurd (List.length_eq_zero_iff.1 whole.symm) something

/-- A text is a match just when the pattern reaches through all of it. -/
theorem mem_language_iff {pattern : Pattern} (listed : pattern ∈ all) :
    text ∈ pattern.language ↔ text ≠ [] ∧ pattern.reach text = text.length := by
  cases pattern with
  | skipped => exact mem_skipped
  | fixed wanted kind =>
    obtain ⟨spelling, member, rfl⟩ := mem_fixedTexts listed
    have nonempty : ∀ entry ∈ fixedTexts, entry.1.toList ≠ [] := by decide +kernel
    exact mem_fixed (nonempty _ member)
  | symbolicValue => exact mem_symbolicValue
  | namespacedMap => exact mem_namespacedMap
  | tagged => exact mem_tagged
  | string => exact mem_string
  | regex => exact mem_regex
  | character => exact mem_character
  | number => exact mem_number
  | keyword => exact mem_keyword
  | symbol => exact mem_symbol

end

end Pattern

end VarDoc
