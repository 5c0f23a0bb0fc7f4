import VarDoc.Json.Reading
import VarDoc.Proofs.JsonLexing
import VarDoc.Proofs.JsonTree

/-! Strings and numbers as JSON text. A string is read back without its escapes,
a whole number with all its digits. -/

set_option autoImplicit false

namespace VarDoc.Json

def escaped (text : List Char) : List Char := text.flatMap fun c => (escape c).toList

theorem escaped_cons (c : Char) (text : List Char) :
    escaped (c :: text) = (escape c).toList ++ escaped text := List.flatMap_cons

theorem renderString_eq (text : String) :
    (renderString text).toList = '"' :: (escaped text.toList ++ ['"']) := by
  simp [renderString, escaped, List.flatMap_map]

/-- A character is written with a short escape, by its number, or as it is. -/
theorem escape_cases (c : Char) :
    (∃ short, (escape c).toList = ['\\', short] ∧ isShortEscape short = true ∧ short ≠ 'u' ∧
      shortEscape? short = some c) ∨
    (c.toNat < 0x20 ∧ (escape c).toList =
      ['\\', 'u', '0', '0', Nat.digitChar (c.toNat / 16), Nat.digitChar (c.toNat % 16)]) ∨
    (¬c.toNat < 0x20 ∧ c ≠ '"' ∧ c ≠ '\\' ∧ (escape c).toList = [c]) := by
  unfold escape
  split
  · exact .inl ⟨'"', by decide⟩
  · exact .inl ⟨'\\', by decide⟩
  · exact .inl ⟨'b', by decide⟩
  · exact .inl ⟨'f', by decide⟩
  · exact .inl ⟨'n', by decide⟩
  · exact .inl ⟨'r', by decide⟩
  · exact .inl ⟨'t', by decide⟩
  next quote backslash _ _ _ _ _ =>
    split
    next control => exact .inr (.inl ⟨control, by simp [hexPair]⟩)
    next printable => exact .inr (.inr ⟨printable, quote, backslash, by simp⟩)

theorem hexDigits (code : Nat) (small : code < 0x20) :
    [Nat.digitChar (code / 16), Nat.digitChar (code % 16)].all isHexDigit = true ∧
    ofDigits 16 ['0', '0', Nat.digitChar (code / 16), Nat.digitChar (code % 16)] = code ∧
    code.isValidChar ∧ isHighSurrogate code = false := by
  revert code
  decide

theorem bodyLength?_escaped (text rest : List Char) :
    bodyLength? (escaped text ++ '"' :: rest) = some (escaped text).length := by
  induction text with
  | nil => rfl
  | cons c text ih =>
    rw [escaped_cons, List.append_assoc, List.length_append]
    rcases escape_cases c with ⟨short, written, known, -, -⟩ | ⟨control, written⟩ |
      ⟨printable, quote, backslash, written⟩
    · rw [written]
      simp [bodyLength?_escape _ known, ih, Nat.add_comm]
    · rw [written]
      have digits := (hexDigits c.toNat control).1
      have unit := bodyLength?_unit (escaped text ++ '"' :: rest)
        (a := '0') (b := '0') digits
      simp [unit, ih, Nat.add_comm]
    · rw [written]
      simp [bodyLength?_plain _ quote backslash printable, ih, Nat.add_comm]

theorem tokens?_renderString (text : String) :
    tokens? (renderString text).toList = some [.string (escaped text.toList)] := by
  rw [renderString_eq]
  have closed := bodyLength?_escaped text.toList []
  have read : Token.first? ('"' :: (escaped text.toList ++ ['"'])) =
      some (.string (escaped text.toList), (escaped text.toList).length + 2) := by
    rw [Token.first?, closed, Option.map_some, List.take_left]
  rw [tokens?, tokensFrom, if_neg (by decide), read]
  dsimp only
  rw [tokensFrom_covered (by simp), List.drop_of_length_le (by simp)]
  rfl

theorem decodeFrom_escape (c : Char) (rest : List Char) :
    decodeFrom 0 ((escape c).toList ++ rest) = (decodeFrom 0 rest).map (c :: ·) := by
  rcases escape_cases c with ⟨short, written, -, notUnit, denotes⟩ | ⟨control, written⟩ |
    ⟨printable, quote, backslash, written⟩
  · simp [written, decodeFrom, readStringEscape?, notUnit, denotes]
  · obtain ⟨digits, value, valid, single⟩ := hexDigits c.toNat control
    have unit : hexUnit? ('0' :: '0' :: Nat.digitChar (c.toNat / 16) ::
        Nat.digitChar (c.toNat % 16) :: rest) = some c.toNat := by
      simp only [List.all_cons, List.all_nil, Bool.and_true, Bool.and_eq_true] at digits
      have zero : isHexDigit '0' = true := rfl
      simp [hexUnit?, value, zero, digits]
    simp [written, decodeFrom, readStringEscape?, unit, single, characterOfCode?, valid]
  · simp [written, decodeFrom, backslash]

theorem decodeString?_escaped (text : String) : decodeString? (escaped text.toList) = some text := by
  have decoded (characters : List Char) : decodeFrom 0 (escaped characters) = some characters := by
    induction characters with
    | nil => rfl
    | cons c rest ih =>
      rw [escaped_cons, decodeFrom_escape, ih, Option.map_some]
  rw [decodeString?, decoded, Option.map_some, String.ofList_toList]

theorem digitValue_digit {c : Char} (digit : c.isDigit = true) :
    digitValue c = c.toNat - '0'.toNat := if_pos digit

theorem foldl_digits_ge {base : Nat} (positive : 0 < base) (digits : List Char) (start : Nat) :
    start ≤ digits.foldl (fun value c => value * base + digitValue c) start := by
  induction digits generalizing start with
  | nil => exact Nat.le_refl _
  | cons c rest ih =>
    have first : start ≤ start * base + digitValue c :=
      Nat.le_add_right_of_le (Nat.le_mul_of_pos_right start positive)
    exact Nat.le_trans first (ih _)

theorem growSignificand_of_lt {digits : List Char} {start : Nat}
    (small : digits.foldl (fun value c => value * 10 + digitValue c) start < 0x10000000000000000) :
    growSignificand start digits =
      (digits.foldl (fun value c => value * 10 + digitValue c) start, digits.length) := by
  induction digits generalizing start with
  | nil => rfl
  | cons c rest ih =>
    have first : start * 10 + digitValue c < 0x10000000000000000 :=
      Nat.lt_of_le_of_lt (foldl_digits_ge (by decide) rest _) small
    rw [growSignificand]
    dsimp only
    rw [if_pos first, ih small]
    rfl

theorem ofDigits_toDigits (size : Nat) : ofDigits 10 (Nat.toDigits 10 size) = size := by
  have same (digits : List Char) (every : ∀ c ∈ digits, c.isDigit = true) (start : Nat) :
      digits.foldl (fun value c => value * 10 + digitValue c) start =
        Nat.ofDigitChars 10 digits start := by
    induction digits generalizing start with
    | nil => rfl
    | cons c rest ih =>
      rw [List.foldl_cons, Nat.ofDigitChars_cons, digitValue_digit (every c List.mem_cons_self),
        Nat.mul_comm]
      exact ih (fun d member => every d (List.mem_cons_of_mem _ member)) _
  rw [ofDigits, same _ (fun _ => Nat.isDigit_of_mem_toDigits (by decide) (by decide)),
    Nat.ofDigitChars_ten_toDigits]

theorem toDigits_head_ne_zero {size : Nat} (positive : 0 < size) (rest : List Char) :
    Nat.toDigits 10 size ≠ '0' :: rest := by
  induction size using Nat.strongRecOn generalizing rest with
  | ind size ih =>
    rw [Nat.toDigits_eq_if (by decide)]
    split
    next small =>
      have nonzero : ∀ digit < 10, 0 < digit → Nat.digitChar digit ≠ '0' := by decide
      exact fun zero => nonzero size small positive (List.cons.inj zero).1
    next large =>
      have shorter := ih (size / 10) (by omega) (by omega)
      cases digits : Nat.toDigits 10 (size / 10) with
      | nil => exact absurd digits Nat.toDigits_ne_nil
      | cons first more =>
        rw [List.cons_append]
        intro zero
        exact shorter more (by rw [digits, (List.cons.inj zero).1])

theorem wholePart?_toDigits (size : Nat) :
    wholePart? (Nat.toDigits 10 size) = some (Nat.toDigits 10 size, []) := by
  have every : ∀ c ∈ Nat.toDigits 10 size, c.isDigit = true :=
    fun _ => Nat.isDigit_of_mem_toDigits (by decide) (by decide)
  have taken : (Nat.toDigits 10 size ++ []).takeWhile Char.isDigit = Nat.toDigits 10 size ++ [] :=
    List.takeWhile_append_of_pos every
  have dropped : (Nat.toDigits 10 size ++ []).dropWhile Char.isDigit = [] :=
    List.dropWhile_append_of_pos every
  rw [List.append_nil] at taken dropped
  rcases Nat.eq_zero_or_pos size with rfl | positive
  · rfl
  · unfold wholePart?
    split
    next rest zero => exact absurd zero (toDigits_head_ne_zero positive rest)
    next =>
      rw [taken, dropped]
      exact if_neg (by simp)

theorem number?_toString (value : Int) :
    number? (toString value).toList =
      some (⟨decide (value < 0), Nat.toDigits 10 value.natAbs, [], none⟩, []) := by
  have whole := wholePart?_toDigits value.natAbs
  rw [Int.toString_eq_repr]
  cases value with
  | ofNat size =>
    rw [Int.repr, Nat.repr_eq_ofList_toDigits, String.toList_ofList]
    rw [Int.natAbs] at whole ⊢
    cases digits : Nat.toDigits 10 size with
    | nil => exact absurd digits Nat.toDigits_ne_nil
    | cons first rest =>
      have member : first ∈ Nat.toDigits 10 size := digits ▸ List.mem_cons_self
      have digit := Nat.isDigit_of_mem_toDigits (by decide) (by decide) member
      rw [digits] at whole
      rw [number?_unsigned _ (by rintro rfl; contradiction), whole]
      rfl
  | negSucc size =>
    rw [Int.repr, Nat.repr_eq_ofList_toDigits, String.toList_append]
    rw [Int.natAbs] at whole ⊢
    change number? ('-' :: (String.ofList (Nat.toDigits 10 size.succ)).toList) = _
    rw [String.toList_ofList, decide_eq_true (Int.negSucc_lt_zero size)]
    simp only [number?, whole]
    rfl

theorem tokens?_number {text : List Char} {written : NumberText}
    (number : number? text = some (written, [])) : tokens? text = some [.number written] := by
  obtain ⟨first, more, rfl, start⟩ := number?_head number
  have visible : isSpace first = false := by
    cases space : isSpace first with
    | false => rfl
    | true =>
      simp only [isSpace, Bool.or_eq_true, beq_iff_eq, or_assoc] at space
      rcases space with rfl | rfl | rfl | rfl <;> simp at start
  rw [tokens?, tokensFrom, visible, first?_number more start, number]
  dsimp only [Option.map_some]
  rw [if_neg (by decide), tokensFrom_covered (by simp), List.drop_of_length_le (by simp)]
  rfl

def Number.text (number : Number) : NumberText :=
  match tokens? number.render.toList with
  | some [.number text] => text
  | _ => ⟨false, [], [], none⟩

structure Number.Legible (number : Number) : Prop where
  lexed : tokens? number.render.toList = some [.number number.text]
  denotes : number.text.number? = some number

theorem Number.legible_of_lexed {number : Number} {text : NumberText}
    (lexed : tokens? number.render.toList = some [.number text])
    (denotes : text.number? = some number) : number.Legible := by
  have same : number.text = text := by
    rw [Number.text, lexed]
  exact ⟨by rw [lexed, same], by rw [same, denotes]⟩

theorem Number.whole_legible (value : Int)
    (fits : -0x8000000000000000 ≤ value ∧ value < 0x10000000000000000) :
    (Number.whole value fits).Legible := by
  refine legible_of_lexed (tokens?_number (number?_toString value)) ?_
  have small : value.natAbs < 0x10000000000000000 := by omega
  have grown : growSignificand 0 (Nat.toDigits 10 value.natAbs) =
      (value.natAbs, (Nat.toDigits 10 value.natAbs).length) := by
    have all := ofDigits_toDigits value.natAbs
    rw [ofDigits] at all
    rw [growSignificand_of_lt (by rw [all]; exact small), all]
  have signed : (if decide (value < 0) = true then -(value.natAbs : Int) else value.natAbs) = value := by
    by_cases negative : value < 0
    · rw [if_pos (by simpa using negative)]
      omega
    · rw [if_neg (by simpa using negative)]
      omega
  -- Only zero with a sign, or less than the least 64-bit integer, would become a double.
  have kept : (decide (value < 0) && (decide (value.natAbs = 0) ||
      decide (0x8000000000000000 < value.natAbs))) = false := by
    simp
    omega
  rw [NumberText.number?, grown]
  simp only [List.isEmpty_nil, Option.isNone_none, Bool.and_self, if_pos, Nat.sub_self, decide_true,
    kept, Bool.not_false, signed, Number.ofInt?, dif_pos fits]

def Number.ReadsBack (number : Number) : Prop := Json.read? number.render = some (.number number)

theorem flat_of_number {raw : Raw} {number : Number} (denotes : raw.json? = some (.number number)) :
    ∃ text, raw = .number text ∧ text.number? = some number := by
  cases raw with
  | number text =>
    obtain ⟨value, known, same⟩ := Option.map_eq_some_iff.1 denotes
    exact ⟨text, rfl, by rw [known, Json.number.inj same]⟩
  | null | bool => simp [Raw.json?] at denotes
  | string | array | object => simp [Raw.json?] at denotes

theorem Number.ReadsBack.legible {number : Number} (back : number.ReadsBack) : number.Legible := by
  obtain ⟨raw, shallow, denotes⟩ := Option.bind_eq_some_iff.1 back
  obtain ⟨same, rawRead, shallow⟩ := Option.bind_eq_some_iff.1 shallow
  obtain rfl := Raw.eq_of_shallow? shallow
  obtain ⟨tokens, lexed, read⟩ := Option.bind_eq_some_iff.1 rawRead
  obtain ⟨text, rfl, known⟩ := flat_of_number denotes
  obtain rfl := Raw.tokens_of_flat read rfl
  exact legible_of_lexed lexed known

end VarDoc.Json
