import Mathlib.Data.Nat.Digits.Defs
import VarDoc.Meta.OfForm
import VarDoc.Proofs.JsonLeaves
import VarDoc.Proofs.LongestMatch
import VarDoc.Proofs.ReaderGrammar

/-! The value of integer literals. A number that is written with a sign and
digits alone denotes an integer wherever that integer has 64 bits, and stays code
where it has more. Computing it digit by digit in words of 64 bits gives the same
integer, since nothing on the way to it is larger. The sign of a number in base
eight is applied last, which loses the least of all integers. -/

set_option autoImplicit false

namespace VarDoc

inductive Sign where
  | absent
  | plus
  | minus
  deriving DecidableEq

namespace Sign

def text : Sign → List Char
  | absent => []
  | plus => ['+']
  | minus => ['-']

def apply (sign : Sign) (size : Int) : Int := if sign = minus then -size else size

@[simp] theorem apply_absent (size : Int) : absent.apply size = size := rfl

@[simp] theorem apply_plus (size : Int) : plus.apply size = size := rfl

@[simp] theorem apply_minus (size : Int) : minus.apply size = -size := rfl

end Sign

structure IntegerLiteral where
  sign : Sign
  digits : List Char
  nonempty : digits ≠ []
  decimal : ∀ digit ∈ digits, digit.isDigit = true

def InWord (value : Int) : Prop := -0x8000000000000000 ≤ value ∧ value < 0x8000000000000000

instance : DecidablePred InWord := fun _ => inferInstanceAs (Decidable (_ ∧ _))

def word? (value : Int) : Option Int64 := if InWord value then some (Int64.ofInt value) else none

/-- One more digit behind a number, away from zero on the side of the sign. The
product and the sum have to be words each. -/
def appendDigit? (base : Nat) (sign : Sign) (number : Int64) (digit : Char) : Option Int64 :=
  (word? (number.toInt * base)).bind fun product => word? (product.toInt + sign.apply (digitValue digit))

namespace IntegerLiteral

variable (literal : IntegerLiteral)

def text : List Char := literal.sign.text ++ literal.digits

def base : Nat := if 1 < literal.digits.length ∧ literal.digits.head? = some '0' then 8 else 10

def Valid : Prop := literal.base = 8 → '8' ∉ literal.digits ∧ '9' ∉ literal.digits

def size : Nat :=
  Nat.ofDigits literal.base (literal.digits.reverse.map fun digit => digit.toNat - '0'.toNat)

def value : Int := literal.sign.apply literal.size

/-- The literal as a word, each step to which is a word too. In base eight the
digits after the zero are read without the sign. -/
def computed? : Option Int64 :=
  if literal.base = 8 then
    if literal.digits.all isOctalDigit then
      ((literal.digits.drop 1).foldlM (appendDigit? 8 .absent) 0).bind fun size =>
        word? (literal.sign.apply size.toInt)
    else none
  else literal.digits.foldlM (appendDigit? 10 literal.sign) 0

end IntegerLiteral

theorem toInt_word {value : Int} (fits : InWord value) : (Int64.ofInt value).toInt = value :=
  Int64.toInt_ofInt_of_le fits.1 fits.2

theorem inWord_toInt (number : Int64) : InWord number.toInt := ⟨number.le_toInt, number.toInt_lt⟩

@[simp] theorem word?_toInt (number : Int64) : word? number.toInt = some number := by
  rw [word?, if_pos (inWord_toInt number), Int64.ofInt_toInt]

theorem word?_eq_some_iff {value : Int} {number : Int64} :
    word? value = some number ↔ number.toInt = value := by
  constructor
  · intro made
    unfold word? at made
    split at made
    next fits =>
      cases made
      exact toInt_word fits
    next => contradiction
  · rintro rfl
    exact word?_toInt number

theorem word?_eq_none_iff {value : Int} : word? value = none ↔ ¬ InWord value := by
  simp [word?]

theorem not_inWord_of_le {sign : Sign} {size larger : Nat} (le : size ≤ larger)
    (exceeds : ¬ InWord (sign.apply size)) : ¬ InWord (sign.apply larger) := by
  unfold InWord at *
  cases sign <;> simp only [Sign.apply_absent, Sign.apply_plus, Sign.apply_minus] at * <;> omega

theorem appendDigit?_eq {base size : Nat} {sign : Sign} {number : Int64}
    (same : number.toInt = sign.apply size) (digit : Char) :
    appendDigit? base sign number digit = word? (sign.apply (size * base + digitValue digit : Nat)) := by
  have product : number.toInt * base = sign.apply (size * base : Nat) := by
    rw [same, Sign.apply, Sign.apply]
    split <;> simp
  have sum : sign.apply (size * base : Nat) + sign.apply (digitValue digit) =
      sign.apply (size * base + digitValue digit : Nat) := by
    simp only [Sign.apply]
    split <;> omega
  rw [appendDigit?, product]
  cases made : word? (sign.apply (size * base : Nat)) with
  | some word => rw [Option.bind_some, word?_eq_some_iff.1 made, sum]
  | none =>
    have exceeds := word?_eq_none_iff.1 made
    rw [Option.bind_none, word?_eq_none_iff.2 (not_inWord_of_le (Nat.le_add_right _ _) exceeds)]

/-- Checking every step comes to checking the outcome: what has been computed is
never larger than what is still to come. -/
theorem foldlM_appendDigit? {base : Nat} (positive : 0 < base) (sign : Sign) (digits : List Char)
    {number : Int64} {size : Nat} (same : number.toInt = sign.apply size) :
    digits.foldlM (appendDigit? base sign) number =
      word? (sign.apply (digits.foldl (fun value c => value * base + digitValue c) size : Nat)) := by
  induction digits generalizing number size with
  | nil => exact (same ▸ word?_toInt number).symm
  | cons digit digits ih =>
    rw [List.foldlM_cons, appendDigit?_eq same, List.foldl_cons]
    cases made : word? (sign.apply (size * base + digitValue digit : Nat)) with
    | some next => exact ih (word?_eq_some_iff.1 made)
    | none =>
      have exceeds := word?_eq_none_iff.1 made
      exact (word?_eq_none_iff.2
        (not_inWord_of_le (Json.foldl_digits_ge positive digits _) exceeds)).symm

theorem foldlM_ofDigits {base : Nat} (positive : 0 < base) (sign : Sign) (digits : List Char) :
    digits.foldlM (appendDigit? base sign) 0 = word? (sign.apply (ofDigits base digits)) := by
  have zero : (0 : Int64).toInt = sign.apply (0 : Nat) := by cases sign <;> rfl
  exact foldlM_appendDigit? positive sign digits zero

/-- A size that is a word has its negative among the words. The least of all words
is the negative of no word, so that it is never reached like this. -/
theorem word?_bind_apply_eq_some_iff {sign : Sign} {size : Nat} {number : Int64} :
    ((word? size).bind fun word => word? (sign.apply word.toInt)) = some number ↔
      number.toInt = sign.apply size ∧ sign.apply size ≠ -0x8000000000000000 := by
  have range := inWord_toInt number
  rw [Option.bind_eq_some_iff]
  constructor
  · rintro ⟨word, made, applied⟩
    have fits := inWord_toInt word
    rw [word?_eq_some_iff] at made applied
    rw [made] at applied fits
    refine ⟨applied, ?_⟩
    unfold InWord at fits
    cases sign <;> simp only [Sign.apply_absent, Sign.apply_plus, Sign.apply_minus] <;> omega
  · rintro ⟨same, notLeast⟩
    have fits : InWord size := by
      rw [same] at range
      unfold InWord at *
      cases sign <;> simp only [Sign.apply_absent, Sign.apply_plus, Sign.apply_minus] at range notLeast <;> omega
    have made := toInt_word fits
    exact ⟨Int64.ofInt size, word?_eq_some_iff.2 made, word?_eq_some_iff.2 (by rw [same, made])⟩

theorem ofInt?_eq (value : Int) : Value.ofInt? value = (word? value).map .int := by
  rw [Value.ofInt?, word?, apply_ite (Option.map Value.int)]
  rfl

theorem ofOctal?_eq (sign : Sign) (digits : List Char) :
    Value.ofOctal? (decide (sign = .minus)) digits =
      if digits.all isOctalDigit then
        ((digits.foldlM (appendDigit? 8 .absent) 0).bind fun size =>
          word? (sign.apply size.toInt)).map .int
      else none := by
  rw [Value.ofOctal?, foldlM_ofDigits (by decide), Sign.apply_absent]
  split
  · cases made : word? (ofDigits 8 digits) with
    | some size =>
      have same := word?_eq_some_iff.1 made
      have below := (inWord_toInt size).2
      rw [same] at below
      rw [if_pos below, ofInt?_eq, Option.bind_some, same, Sign.apply]
      simp only [decide_eq_true_eq]
    | none =>
      have exceeds := word?_eq_none_iff.1 made
      unfold InWord at exceeds
      rw [if_neg (by omega)]
      rfl
  · rfl

theorem isOctalDigit_iff {c : Char} (digit : c.isDigit = true) :
    isOctalDigit c = true ↔ c ≠ '8' ∧ c ≠ '9' := by
  have other (d : Char) : c ≠ d ↔ c.toNat ≠ d.toNat := by rw [Ne, Ne, Char.toNat_inj]
  simp only [Char.isDigit, Bool.and_eq_true, decide_eq_true_eq] at digit
  have low : 48 ≤ c.toNat := digit.1
  have high : c.toNat ≤ 57 := digit.2
  rw [isOctalDigit, Bool.and_eq_true, decide_eq_true_eq, decide_eq_true_eq, other, other]
  change 48 ≤ c.toNat ∧ c.toNat ≤ 55 ↔ c.toNat ≠ 56 ∧ c.toNat ≠ 57
  omega

namespace IntegerLiteral

variable (literal : IntegerLiteral)

theorem base_eq_eight_iff :
    literal.base = 8 ↔ 1 < literal.digits.length ∧ literal.digits.head? = some '0' := by
  unfold base
  split <;> simp_all

theorem base_cases : literal.base = 8 ∨ literal.base ≠ 8 ∧ literal.base = 10 := by
  unfold base
  split
  · exact .inl rfl
  · exact .inr ⟨by decide, rfl⟩

theorem all_isDigit : literal.digits.all Char.isDigit = true := List.all_eq_true.2 literal.decimal

theorem isOctalLiteral_digits : isOctalLiteral literal.digits = true ↔ literal.base = 8 := by
  rw [isOctalLiteral, literal.all_isDigit, Bool.and_true, Bool.and_eq_true, decide_eq_true_eq,
    beq_iff_eq, base_eq_eight_iff]

/-- The zero that marks base eight adds nothing to the size. -/
theorem exists_octal (octal : literal.base = 8) : ∃ rest, literal.digits = '0' :: rest ∧
    ofDigits 8 literal.digits = ofDigits 8 rest ∧
    (rest.all isOctalDigit = literal.digits.all isOctalDigit) := by
  obtain ⟨-, zero⟩ := literal.base_eq_eight_iff.1 octal
  obtain ⟨rest, digits⟩ := List.head?_eq_some_iff.1 zero
  exact ⟨rest, digits, by rw [digits]; rfl, by rw [digits]; rfl⟩

theorem size_eq : literal.size = ofDigits literal.base literal.digits := by
  rw [size, Nat.ofDigits_eq_foldr, List.foldr_map, List.foldr_reverse, ofDigits]
  apply List.foldl_ext
  intro value digit listed
  rw [Json.digitValue_digit (literal.decimal digit listed), Nat.cast_id, Nat.add_comm, Nat.mul_comm]

theorem all_isOctalDigit (octal : literal.base = 8) :
    literal.digits.all isOctalDigit = true ↔ literal.Valid := by
  rw [List.all_eq_true, Valid]
  constructor
  · intro every _
    have eight := every '8'
    have nine := every '9'
    exact ⟨fun listed => absurd (eight listed) (by decide),
      fun listed => absurd (nine listed) (by decide)⟩
  · intro valid digit listed
    obtain ⟨noEight, noNine⟩ := valid octal
    rw [isOctalDigit_iff (literal.decimal digit listed)]
    exact ⟨fun same => noEight (same ▸ listed), fun same => noNine (same ▸ listed)⟩

theorem computed?_eq_some_iff {number : Int64} : literal.computed? = some number ↔
    literal.Valid ∧ number.toInt = literal.value ∧
      ¬ (literal.base = 8 ∧ literal.value = -0x8000000000000000) := by
  rw [value, size_eq]
  rcases literal.base_cases with octal | ⟨notOctal, ten⟩
  · -- The size has to be a word by itself before the sign is applied to it.
    obtain ⟨rest, digits, same, every⟩ := literal.exists_octal octal
    rw [← literal.all_isOctalDigit octal, computed?, if_pos octal]
    split
    next valid =>
      rw [octal, same, digits, List.drop_one, List.tail_cons, foldlM_ofDigits (by decide),
        Sign.apply_absent, word?_bind_apply_eq_some_iff]
      simp [← digits, valid]
    next invalid => simp [invalid]
  · have valid : literal.Valid := fun octal => absurd octal notOctal
    rw [computed?, if_neg notOctal, foldlM_ofDigits (by decide), word?_eq_some_iff, ten]
    simp [valid]

theorem computed?_eq_none_iff : literal.computed? = none ↔
    ¬ (literal.Valid ∧ InWord literal.value ∧
      ¬ (literal.base = 8 ∧ literal.value = -0x8000000000000000)) := by
  rw [Option.eq_none_iff_forall_ne_some, ← not_exists, not_iff_not]
  constructor
  · rintro ⟨number, computed⟩
    obtain ⟨valid, same, notLeast⟩ := literal.computed?_eq_some_iff.1 computed
    exact ⟨valid, same ▸ inWord_toInt number, notLeast⟩
  · rintro ⟨valid, fits, notLeast⟩
    exact ⟨_, literal.computed?_eq_some_iff.2 ⟨valid, toInt_word fits, notLeast⟩⟩

theorem digits_unsigned :
    (∀ rest, literal.digits ≠ '-' :: rest) ∧ ∀ rest, literal.digits ≠ '+' :: rest := by
  have first {c : Char} {rest : List Char} (same : literal.digits = c :: rest) : c.isDigit = true :=
    literal.decimal c (same ▸ List.mem_cons_self)
  exact ⟨fun rest same => absurd (first same) (by decide),
    fun rest same => absurd (first same) (by decide)⟩

theorem splitSign_text : splitSign literal.text = (decide (literal.sign = .minus), literal.digits) := by
  rw [text]
  cases literal.sign with
  | plus => rfl
  | minus => rfl
  | absent =>
    obtain ⟨noMinus, noPlus⟩ := literal.digits_unsigned
    exact splitSign.eq_3 literal.digits noMinus noPlus

theorem signed?_text :
    Decimal.signed? literal.text = some (literal.sign.apply (ofDigits 10 literal.digits)) := by
  have all : Decimal.allDigits literal.digits = true := by
    rw [Decimal.allDigits, literal.all_isDigit]
    simp [literal.nonempty]
  rw [text]
  cases literal.sign with
  | plus => exact if_pos all
  | minus => exact if_pos all
  | absent =>
    obtain ⟨noMinus, noPlus⟩ := literal.digits_unsigned
    rw [Sign.text, List.nil_append, Decimal.signed?.eq_3 literal.digits noMinus noPlus]
    exact if_pos all

theorem text_not_double :
    literal.text.any (fun c => c == '.' || c == 'e' || c == 'E') = false := by
  rw [text, List.any_append, Bool.or_eq_false_iff]
  constructor
  · cases literal.sign <;> rfl
  · rw [List.any_eq_false]
    rintro c listed mark
    have digit := literal.decimal c listed
    simp only [Bool.or_eq_true, beq_iff_eq] at mark
    rcases mark with (rfl | rfl) | rfl <;> contradiction

theorem ofNumber?_text :
    Value.ofNumber? (String.ofList literal.text) = literal.computed?.map .int := by
  rw [Value.ofNumber?, String.toList_ofList, literal.splitSign_text, literal.signed?_text,
    literal.text_not_double, computed?]
  dsimp only
  rcases literal.base_cases with octal | ⟨notOctal, -⟩
  · obtain ⟨rest, digits, -, every⟩ := literal.exists_octal octal
    rw [if_pos (literal.isOctalLiteral_digits.2 octal), if_pos octal, ofOctal?_eq, ← every, digits,
      List.drop_one, List.tail_cons, apply_ite (Option.map Value.int)]
    rfl
  · rw [if_neg (mt literal.isOctalLiteral_digits.1 notOctal), if_neg notOctal, foldlM_ofDigits (by decide),
      Option.bind_some, ofInt?_eq]
    cases word? (literal.sign.apply (ofDigits 10 literal.digits)) <;> rfl

theorem mem_number : literal.text ∈ Pattern.number.language := by
  have unsigned : literal.digits ∈ (Regex.seq (.char VarDoc.digits) (.star (.char numberTails))).language := by
    cases written : literal.digits with
    | nil => exact absurd written literal.nonempty
    | cons first rest =>
      have decimal := literal.decimal
      rw [written] at decimal
      rw [Regex.cons_mem_char_seq, Regex.mem_star_char, has_digits]
      refine ⟨decimal _ List.mem_cons_self, fun digit listed => ?_⟩
      rw [has_numberTails, isNumberTail, decimal digit (List.mem_cons_of_mem _ listed)]
      rfl
  rw [Pattern.language, Pattern.declared, Regex.mem_optional_seq, text]
  cases literal.sign with
  | absent => exact .inl unsigned
  | plus => exact .inr (Regex.cons_mem_char_seq.2 ⟨rfl, unsigned⟩)
  | minus => exact .inr (Regex.cons_mem_char_seq.2 ⟨rfl, unsigned⟩)

theorem readAll_text (features : Features) : ∃ span, readAll features (String.ofList literal.text) =
    .ok [.atom (.number (String.ofList literal.text)) span []] := by
  let token := Token.at .number literal.text 0
  have derives : Derives features (.items false) [token] [.atom (.number token.lexeme) token.span []] :=
    .cons (.atom rfl) .nil
  have lexed : lex literal.text = lexedItems [token] := lex_number literal.mem_number
  refine ⟨token.span, ?_⟩
  rw [readAll_eq_ok_iff, String.toList_ofList, lexed]
  exact readOutcomes_of_derives derives

end IntegerLiteral

/-- Number tokens of a sign and digits alone keep their value where it is a word,
and are left as code otherwise. Each step of the computation is a word then. The
exception is the least of all words, which is lost in base eight. -/
theorem integer_literals_keep_value (literal : IntegerLiteral) (features : Features) :
    (∃ span, readAll features (String.ofList literal.text) =
      .ok [.atom (.number (String.ofList literal.text)) span []]) ∧
    ∀ span metadata,
      let form := Form.atom (.number (String.ofList literal.text)) span metadata
      let kept := literal.Valid ∧ InWord literal.value ∧
        ¬ (literal.base = 8 ∧ literal.value = -0x8000000000000000)
      (kept → ∃ number, Value.ofForm form = .int number ∧ number.toInt = literal.value ∧
        literal.computed? = some number) ∧
      (¬ kept → Value.ofForm form = .code form ∧ literal.computed? = none) := by
  refine ⟨literal.readAll_text features, fun span metadata => ⟨?_, ?_⟩⟩
  · rintro ⟨valid, fits, notLeast⟩
    have computed := literal.computed?_eq_some_iff.2 ⟨valid, toInt_word fits, notLeast⟩
    refine ⟨_, ?_, toInt_word fits, computed⟩
    rw [Value.ofForm, literal.ofNumber?_text, computed]
    rfl
  · intro lost
    have computed := literal.computed?_eq_none_iff.2 lost
    refine ⟨?_, computed⟩
    rw [Value.ofForm, literal.ofNumber?_text, computed]
    rfl

/-- The least integer that is kept in base eight, and a literal with a digit that
base eight does not have. -/
theorem octal_literals_kept_and_left : ∃ least invalid : IntegerLiteral,
    String.ofList least.text = "-0777777777777777777777" ∧
      String.ofList invalid.text = "+08" ∧
      ∀ span metadata,
        Value.ofForm (.atom (.number (String.ofList least.text)) span metadata) =
            .int (-0x7fffffffffffffff) ∧
          Value.ofForm (.atom (.number (String.ofList invalid.text)) span metadata) =
            .code (.atom (.number (String.ofList invalid.text)) span metadata) := by
  let least : IntegerLiteral :=
    ⟨.minus, "0777777777777777777777".toList, by decide +kernel, List.all_eq_true.1 (by decide +kernel)⟩
  let invalid : IntegerLiteral := ⟨.plus, "08".toList, by decide +kernel, List.all_eq_true.1 (by decide +kernel)⟩
  have value : least.value = -0x7fffffffffffffff := by decide +kernel
  refine ⟨least, invalid, by decide +kernel, by decide +kernel, fun span metadata => ⟨?_, ?_⟩⟩
  · have valid : least.Valid := fun _ => by decide +kernel
    have fits : InWord least.value := by decide +kernel
    have notLeast : ¬ (least.base = 8 ∧ least.value = -0x8000000000000000) := by decide +kernel
    obtain ⟨number, read, same, -⟩ :=
      ((integer_literals_keep_value least ["clj"]).2 span metadata).1 ⟨valid, fits, notLeast⟩
    have number_eq : number = -0x7fffffffffffffff := by
      rw [← Int64.toInt_inj, same, value]
      decide +kernel
    rw [read, number_eq]
  · have eight : invalid.base = 8 ∧ '8' ∈ invalid.digits := by decide +kernel
    exact (((integer_literals_keep_value invalid ["clj"]).2 span metadata).2
      fun kept => (kept.1 eight.1).1 eight.2).1

/-- The least of all words stays code when it is written in base eight. -/
theorem least_octal_stays_code : ∃ literal : IntegerLiteral,
    String.ofList literal.text = "-01000000000000000000000" ∧ literal.Valid ∧
      literal.value = -0x8000000000000000 ∧ InWord literal.value ∧
      ∃ form, readAll ["clj"] "-01000000000000000000000" = .ok [form] ∧
        Value.ofForm form = .code form := by
  let literal : IntegerLiteral :=
    ⟨.minus, "01000000000000000000000".toList, by decide +kernel, List.all_eq_true.1 (by decide +kernel)⟩
  have spelled : String.ofList literal.text = "-01000000000000000000000" := by decide +kernel
  have value : literal.value = -0x8000000000000000 := by decide +kernel
  refine ⟨literal, spelled, ?_, value, by decide +kernel, ?_⟩
  · unfold IntegerLiteral.Valid
    decide +kernel
  · obtain ⟨span, read⟩ := literal.readAll_text ["clj"]
    have lost : literal.computed? = none :=
      literal.computed?_eq_none_iff.2 fun kept => kept.2.2 ⟨by decide +kernel, value⟩
    rw [spelled] at read
    refine ⟨_, read, ?_⟩
    rw [Value.ofForm, ← spelled, literal.ofNumber?_text, lost]
    rfl

end VarDoc
