import VarDoc.Proofs.JsonLeaves

/-! The text of a double. However a finite double is laid out, its text is a
number of JSON from end to end. -/

set_option autoImplicit false

namespace VarDoc

namespace Decimal

theorem twoTo_pos (power : Nat) : 0 < twoTo power := Nat.pow_pos (by decide)

theorem tenTo_pos (power : Nat) : 0 < tenTo power := Nat.pow_pos (by decide)

theorem trim_digits_pos {digits : Nat} (power : Int) (positive : 0 < digits) :
    0 < (trim digits power).digits := by
  fun_induction trim digits power with
  | case1 digits power divisible ih => exact ih (by omega)
  | case2 => exact positive

theorem Grid.readsBack_of_pick? {tie : Tie} {grid : Grid} {digits : Nat}
    (picked : grid.pick? tie = some digits) : grid.readsBack digits = true := by
  cases below : grid.readsBack (grid.value / grid.step) <;>
    cases above : grid.readsBack (grid.value / grid.step + 1) <;>
    simp only [pick?, below, above, Option.some.injEq, reduceCtorEq] at picked
  · exact picked ▸ above
  · exact picked ▸ below
  · have either (prefersAbove : Bool) : grid.readsBack
        (if prefersAbove then grid.value / grid.step + 1 else grid.value / grid.step) = true := by
      cases prefersAbove <;> assumption
    exact picked ▸ either _

/-- Zero is nearer to zero than to any other double. -/
theorem Grid.readsBack_zero {binary : Binary} (positive : 0 < binary.mantissa) (power : Int) :
    (Grid.ofBinary binary power).readsBack 0 = false := by
  have unit : 0 < twoTo (binary.power - 2).toNat * tenTo (-power).toNat :=
    Nat.mul_pos (twoTo_pos _) (tenTo_pos _)
  have low : 0 < (Grid.ofBinary binary power).low := by
    apply Nat.mul_pos _ unit
    split <;> omega
  simp only [readsBack, Nat.zero_mul]
  split
  · simp; omega
  · simp

theorem shortest_digits_pos (tie : Tie) {binary : Binary} (positive : 0 < binary.mantissa) :
    0 < (shortest tie binary).digits := by
  unfold shortest
  dsimp only
  cases found : List.findSome? _ (List.range 17) with
  | none =>
    apply trim_digits_pos
    exact Nat.mul_pos (Nat.mul_pos positive (twoTo_pos _)) (Nat.pow_pos (by decide))
  | some decimal =>
    obtain ⟨count, -, attempted⟩ := List.exists_of_findSome?_eq_some found
    obtain ⟨digits, picked, rfl⟩ := Option.map_eq_some_iff.1 attempted
    apply trim_digits_pos
    have readsBack := Grid.readsBack_of_pick? picked
    rcases Nat.eq_zero_or_pos digits with rfl | some
    · rw [Grid.readsBack_zero positive] at readsBack
      cases readsBack
    · exact some

theorem ofBits_mantissa_pos {bits : Nat} (nonzero : bits % twoTo 63 ≠ 0) :
    0 < (Binary.ofBits bits).mantissa := by
  have fraction : twoTo fractionBits = 0x10000000000000 := rfl
  have exponent : twoTo 11 = 0x800 := rfl
  have sign : twoTo 63 = 0x8000000000000000 := rfl
  simp only [Binary.ofBits, fraction, exponent]
  rw [sign] at nonzero
  split
  · dsimp only; omega
  · dsimp only; omega

end Decimal

namespace Json

def NoDigit (text : List Char) : Prop := text.head?.any Char.isDigit = false

theorem span_digits {digits rest : List Char} (every : ∀ c ∈ digits, c.isDigit = true)
    (ends : NoDigit rest) :
    (digits ++ rest).takeWhile Char.isDigit = digits ∧ (digits ++ rest).dropWhile Char.isDigit = rest := by
  have stops : rest.takeWhile Char.isDigit = [] ∧ rest.dropWhile Char.isDigit = rest := by
    cases rest with
    | nil => exact ⟨rfl, rfl⟩
    | cons c more =>
      have other : ¬ c.isDigit = true := Bool.eq_false_iff.1 ends
      exact ⟨List.takeWhile_cons_of_neg other, List.dropWhile_cons_of_neg other⟩
  constructor
  · rw [List.takeWhile_append_of_pos every, stops.1, List.append_nil]
  · rw [List.dropWhile_append_of_pos every, stops.2]

theorem span_all_digits {digits : List Char} (every : ∀ c ∈ digits, c.isDigit = true) :
    digits.takeWhile Char.isDigit = digits ∧ digits.dropWhile Char.isDigit = [] := by
  have spanned := @span_digits digits [] every rfl
  rwa [List.append_nil] at spanned

def IsWhole (digits : List Char) : Prop :=
  ∀ rest, NoDigit rest → wholePart? (digits ++ rest) = some (digits, rest)

theorem isWhole_zero : IsWhole ['0'] := by
  intro rest ends
  rw [List.singleton_append, wholePart?, ends]
  rfl

theorem isWhole_digits {first : Char} {digits : List Char} (nonzero : first ≠ '0')
    (every : ∀ c ∈ first :: digits, c.isDigit = true) : IsWhole (first :: digits) := by
  intro rest ends
  obtain ⟨taken, dropped⟩ := span_digits every ends
  unfold wholePart?
  split
  next zero => exact absurd (List.cons.inj zero).1 nonzero
  next =>
    rw [taken, dropped]
    rfl

theorem fractionPart?_digits {digits rest : List Char} (nonempty : digits ≠ [])
    (every : ∀ c ∈ digits, c.isDigit = true) (ends : NoDigit rest) :
    fractionPart? ('.' :: (digits ++ rest)) = some (digits, rest) := by
  obtain ⟨taken, dropped⟩ := span_digits every ends
  unfold fractionPart?
  simp only [taken, dropped]
  exact if_neg (by simpa using nonempty)

theorem exponentPart?_digits {sign digits : List Char} (signed : sign = [] ∨ sign = ['-'] ∨ sign = ['+'])
    (nonempty : digits ≠ []) (every : ∀ c ∈ digits, c.isDigit = true) :
    ∃ exponent, exponentPart? ('e' :: (sign ++ digits)) = some (some exponent, []) := by
  obtain ⟨taken, dropped⟩ := span_all_digits every
  rcases signed with rfl | rfl | rfl
  · cases digits with
    | nil => contradiction
    | cons first more =>
      have digit := every first List.mem_cons_self
      rw [List.nil_append, exponentPart?_unsigned more (.inl rfl) (by rintro rfl; contradiction)
        (by rintro rfl; contradiction), taken, dropped]
      exact ⟨_, rfl⟩
  · refine ⟨(true, digits), ?_⟩
    simp only [exponentPart?, List.cons_append, List.nil_append, taken, dropped, true_or, if_true]
    exact if_neg (by simpa using nonempty)
  · refine ⟨(false, digits), ?_⟩
    simp only [exponentPart?, List.cons_append, List.nil_append, taken, dropped, true_or, if_true]
    exact if_neg (by simpa using nonempty)

def IsSize (text : List Char) : Prop :=
  ∃ whole fraction exponent afterWhole afterFraction, wholePart? text = some (whole, afterWhole) ∧
    fractionPart? afterWhole = some (fraction, afterFraction) ∧
    exponentPart? afterFraction = some (exponent, [])

def IsNumber (text : List Char) : Prop := ∃ written, number? text = some (written, [])

theorem IsSize.negative {text : List Char} (size : IsSize text) : IsNumber ('-' :: text) := by
  obtain ⟨whole, fraction, exponent, afterWhole, afterFraction, wholeRead, fractionRead, exponentRead⟩ := size
  refine ⟨⟨true, whole, fraction, exponent⟩, ?_⟩
  simp only [number?, wholeRead, Option.bind_some, fractionRead, exponentRead, Option.map_some]

theorem IsSize.isNumber {text : List Char} (size : IsSize text) : IsNumber text := by
  obtain ⟨whole, fraction, exponent, afterWhole, afterFraction, wholeRead, fractionRead, exponentRead⟩ := size
  cases text with
  | nil => contradiction
  | cons first rest =>
    have unsigned : first ≠ '-' := by
      rintro rfl
      contradiction
    refine ⟨⟨false, whole, fraction, exponent⟩, ?_⟩
    rw [number?_unsigned rest unsigned, wholeRead]
    simp only [Option.bind_some, fractionRead, exponentRead, Option.map_some]

theorem isSize_fixed {whole fraction : List Char} (isWhole : IsWhole whole)
    (nonempty : fraction ≠ []) (every : ∀ c ∈ fraction, c.isDigit = true) :
    IsSize (whole ++ '.' :: fraction) := by
  have read := @fractionPart?_digits fraction [] nonempty every rfl
  rw [List.append_nil] at read
  exact ⟨whole, fraction, none, '.' :: fraction, [], isWhole _ rfl, read, rfl⟩

theorem isSize_scientific {whole fraction power : List Char} (isWhole : IsWhole whole)
    (every : ∀ c ∈ fraction, c.isDigit = true)
    (exponent : ∃ value, exponentPart? ('e' :: power) = some (some value, [])) :
    IsSize (whole ++ ((if fraction.isEmpty then [] else '.' :: fraction) ++ 'e' :: power)) := by
  obtain ⟨value, read⟩ := exponent
  cases fraction with
  | nil => exact ⟨whole, [], some value, 'e' :: power, 'e' :: power, isWhole _ rfl, rfl, read⟩
  | cons first rest =>
    exact ⟨whole, first :: rest, some value, _, 'e' :: power, isWhole _ rfl,
      fractionPart?_digits (List.cons_ne_nil _ _) every rfl, read⟩

end Json

namespace Decimal

open Json (IsSize IsWhole IsNumber)

theorem isDigit_toDigits (size : Nat) : ∀ c ∈ Nat.toDigits 10 size, c.isDigit = true :=
  fun _ => Nat.isDigit_of_mem_toDigits (by decide) (by decide)

theorem toDigits_cons {size : Nat} (positive : 0 < size) :
    ∃ first rest, Nat.toDigits 10 size = first :: rest ∧ first ≠ '0' := by
  cases digits : Nat.toDigits 10 size with
  | nil => exact absurd digits Nat.toDigits_ne_nil
  | cons first rest =>
    refine ⟨first, rest, rfl, ?_⟩
    rintro rfl
    exact Json.toDigits_head_ne_zero positive rest digits

theorem isDigit_zeros (count : Nat) : ∀ c ∈ List.replicate count '0', c.isDigit = true := by
  intro c member
  rw [List.eq_of_mem_replicate member]
  rfl

theorem positional_isSize {decimal : Decimal} (positive : 0 < decimal.digits) :
    IsSize (positional decimal).toList := by
  obtain ⟨first, rest, digits, nonzero⟩ := toDigits_cons positive
  have every := isDigit_toDigits decimal.digits
  rw [digits] at every
  simp only [positional, zeros, digits]
  split
  · have all : ∀ c ∈ first :: (rest ++ List.replicate decimal.power.toNat '0'), c.isDigit = true := by
      rw [← List.cons_append]
      exact List.forall_mem_append.2 ⟨every, isDigit_zeros _⟩
    have size := Json.isSize_fixed (Json.isWhole_digits nonzero all) (List.cons_ne_nil '0' []) (by simp)
    simpa using size
  · split
    next negative inside =>
      obtain ⟨more, count⟩ : ∃ more, (first :: rest).length - (-decimal.power).toNat = more + 1 :=
        Nat.exists_eq_add_one.2 (Nat.sub_pos_of_lt inside)
      have nonempty : rest.drop more ≠ [] := by
        rw [List.length_cons] at count
        rw [ne_eq, List.drop_eq_nil_iff]
        omega
      have whole : ∀ c ∈ first :: rest.take more, c.isDigit = true := fun c member =>
        every c (List.mem_of_mem_take (List.take_succ_cons ▸ member))
      have fraction : ∀ c ∈ rest.drop more, c.isDigit = true := fun c member =>
        every c (List.mem_cons_of_mem first (List.mem_of_mem_drop member))
      have size := Json.isSize_fixed (Json.isWhole_digits nonzero whole) nonempty fraction
      rw [count]
      simpa using size
    next =>
      have fraction (count : Nat) : ∀ c ∈ List.replicate count '0' ++ first :: rest, c.isDigit = true :=
        List.forall_mem_append.2 ⟨isDigit_zeros count, every⟩
      have size (count : Nat) := Json.isSize_fixed Json.isWhole_zero (by simp) (fraction count)
      simpa using size _

theorem exponent_read (lead : Int) {plus : String} (sign : plus = "" ∨ plus = "+") :
    ∃ value, Json.exponentPart? ('e' :: ((if lead < 0 then "" else plus) ++ toString lead).toList) =
      some (some value, []) := by
  have nonempty (size : Nat) : Nat.toDigits 10 size ≠ [] := Nat.toDigits_ne_nil
  rw [Int.toString_eq_repr, String.toList_append]
  cases lead with
  | ofNat size =>
    have positive : ¬ Int.ofNat size < 0 := Int.not_lt.2 (Int.natCast_nonneg size)
    rw [if_neg positive, Int.repr, Nat.repr_eq_ofList_toDigits, String.toList_ofList]
    apply Json.exponentPart?_digits _ (nonempty size) (isDigit_toDigits size)
    rcases sign with rfl | rfl
    · exact .inl rfl
    · exact .inr (.inr rfl)
  | negSucc size =>
    have written : ("-" ++ String.ofList (Nat.toDigits 10 size.succ)).toList =
        ['-'] ++ Nat.toDigits 10 size.succ := by
      simp
    rw [if_pos (Int.negSucc_lt_zero size), Int.repr, Nat.repr_eq_ofList_toDigits, written]
    change ∃ value, Json.exponentPart? ('e' :: (['-'] ++ Nat.toDigits 10 size.succ)) = _
    exact Json.exponentPart?_digits (.inr (.inl rfl)) (nonempty _) (isDigit_toDigits _)

theorem scientific_isSize {decimal : Decimal} (positive : 0 < decimal.digits) (layout : Layout)
    (sign : layout.exponentPlus = "" ∨ layout.exponentPlus = "+") (lead : Int) :
    IsSize (scientific layout decimal lead).toList := by
  obtain ⟨first, rest, digits, nonzero⟩ := toDigits_cons positive
  have every := isDigit_toDigits decimal.digits
  rw [digits] at every
  have size := Json.isSize_scientific
    (Json.isWhole_digits nonzero (List.forall_mem_singleton.2 (every first List.mem_cons_self)))
    (fun c member => every c (List.mem_cons_of_mem first member)) (exponent_read lead sign)
  simp only [scientific, digits]
  cases rest <;> simpa using size

theorem Layout.finite_isNumber (layout : Layout)
    (sign : layout.exponentPlus = "" ∨ layout.exponentPlus = "+") (value : Float) :
    IsNumber (layout.finite value).toList := by
  have size : IsSize (if value.toBits.toNat % twoTo 63 = 0 then "0.0"
      else layout.size (Binary.ofBits value.toBits.toNat)).toList := by
    split
    · exact ⟨['0'], ['0'], none, ['.', '0'], [], rfl, rfl, rfl⟩
    next nonzero =>
      have positive := shortest_digits_pos layout.tie (ofBits_mantissa_pos nonzero)
      unfold Layout.size
      dsimp only
      split
      · exact positional_isSize positive
      · exact scientific_isSize positive layout sign _
  unfold Layout.finite
  dsimp only
  rw [String.toList_append]
  split
  · exact size.negative
  · exact size.isNumber

end Decimal

theorem Json.Number.lexed (number : Number) :
    tokens? number.render.toList = some [.number number.text] := by
  obtain ⟨written, read⟩ : IsNumber number.render.toList := by
    cases number with
    | whole value => exact ⟨_, number?_toString value⟩
    | real value => exact numberLayout.finite_isNumber (.inr rfl) value
  rw [Number.text, tokens?_number read]

end VarDoc
