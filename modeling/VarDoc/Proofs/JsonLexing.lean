import VarDoc.Json.Token

/-! Tokens of JSON text that is put together from pieces. A piece keeps its
tokens when what follows cannot be taken for more of its last token. -/

set_option autoImplicit false

namespace VarDoc.Json

def stops : List Char := [',', ':', ']', '\x7d']

def Stops (rest : List Char) : Prop := ∀ c ∈ rest.head?, c ∈ stops

theorem Stops.cons {c : Char} (member : c ∈ stops) (rest : List Char) : Stops (c :: rest) := by
  intro d found
  rwa [← Option.some.inj found]

theorem stops_outside_numbers {c : Char} (member : c ∈ stops) :
    c.isDigit = false ∧ c ≠ '.' ∧ ¬(c = 'e' ∨ c = 'E') := by
  simp only [stops, List.mem_cons, List.not_mem_nil, or_false] at member
  rcases member with rfl | rfl | rfl | rfl <;> decide

theorem exponentPart?_unsigned {mark sign : Char} (size : List Char) (marked : mark = 'e' ∨ mark = 'E')
    (minus : sign ≠ '-') (plus : sign ≠ '+') :
    exponentPart? (mark :: sign :: size) =
      if ((sign :: size).takeWhile Char.isDigit).isEmpty then none
      else some (some (false, (sign :: size).takeWhile Char.isDigit),
        (sign :: size).dropWhile Char.isDigit) := by
  unfold exponentPart?
  simp only [if_pos marked]
  split
  next same => exact absurd (List.cons.inj same).1 minus
  next same => exact absurd (List.cons.inj same).1 plus
  next => rfl

theorem number?_unsigned {first : Char} (rest : List Char) (minus : first ≠ '-') :
    number? (first :: rest) =
      (wholePart? (first :: rest)).bind fun (whole, rest) =>
        (fractionPart? rest).bind fun (fraction, rest) =>
          (exponentPart? rest).map fun (exponent, rest) => (⟨false, whole, fraction, exponent⟩, rest) := by
  unfold number?
  split
  next same =>
    split at same
    next negative => exact absurd (List.cons.inj negative).1 minus
    next =>
      obtain ⟨rfl, rfl⟩ := Prod.mk.inj same
      rfl

section Before

variable {text rest : List Char} (ends : Stops rest)
include ends

theorem takeWhile_before_stop :
    (text ++ rest).takeWhile Char.isDigit = text.takeWhile Char.isDigit := by
  induction text with
  | nil =>
    cases rest with
    | nil => rfl
    | cons c more => exact List.takeWhile_cons_of_neg (by simp [stops_outside_numbers (ends c rfl)])
  | cons c more ih => rw [List.cons_append, List.takeWhile_cons, List.takeWhile_cons, ih]

theorem dropWhile_before_stop :
    (text ++ rest).dropWhile Char.isDigit = text.dropWhile Char.isDigit ++ rest := by
  induction text with
  | nil =>
    cases rest with
    | nil => rfl
    | cons c more => exact List.dropWhile_cons_of_neg (by simp [stops_outside_numbers (ends c rfl)])
  | cons c more ih =>
    rw [List.cons_append, List.dropWhile_cons, List.dropWhile_cons, ih]
    split <;> rfl

theorem digits_before_stop {α : Type} (make : List Char → α) {value : α} {left : List Char}
    (read : (if (text.takeWhile Char.isDigit).isEmpty then none
      else some (make (text.takeWhile Char.isDigit), text.dropWhile Char.isDigit)) = some (value, left)) :
    (if ((text ++ rest).takeWhile Char.isDigit).isEmpty then none
      else some (make ((text ++ rest).takeWhile Char.isDigit), (text ++ rest).dropWhile Char.isDigit)) =
        some (value, left ++ rest) := by
  rw [takeWhile_before_stop ends, dropWhile_before_stop ends]
  split at read
  · contradiction
  next found =>
    obtain ⟨made, dropped⟩ := Prod.mk.inj (Option.some.inj read)
    rw [if_neg found, made, dropped]

theorem wholePart?_before_stop {digits left : List Char}
    (whole : wholePart? text = some (digits, left)) :
    wholePart? (text ++ rest) = some (digits, left ++ rest) := by
  unfold wholePart? at whole
  split at whole
  next more =>
    split at whole
    · contradiction
    next alone =>
      simp only [Option.some.injEq, Prod.mk.injEq] at whole
      obtain ⟨rfl, rfl⟩ := whole
      have still : ¬(more ++ rest).head?.any Char.isDigit = true := by
        cases more with
        | nil =>
          cases rest with
          | nil => exact alone
          | cons c after => simp [stops_outside_numbers (ends c rfl)]
        | cons c after => exact alone
      rw [List.cons_append, wholePart?, if_neg still]
  next other =>
    cases text with
    | nil => contradiction
    | cons c more =>
      unfold wholePart?
      split
      next zero => exact absurd (List.cons.inj zero).1 (by rintro rfl; exact other _ rfl)
      next => exact digits_before_stop ends id whole

theorem fractionPart?_before_stop {digits left : List Char}
    (fraction : fractionPart? text = some (digits, left)) :
    fractionPart? (text ++ rest) = some (digits, left ++ rest) := by
  unfold fractionPart? at fraction
  split at fraction
  next more => exact digits_before_stop ends id fraction
  next other =>
    simp only [Option.some.injEq, Prod.mk.injEq] at fraction
    obtain ⟨rfl, rfl⟩ := fraction
    unfold fractionPart?
    split
    next point =>
      cases text with
      | nil =>
        rw [List.nil_append] at point
        exact absurd rfl (stops_outside_numbers (ends '.' (by rw [point]; rfl))).2.1
      | cons c after => exact absurd (List.cons.inj point).1 (by rintro rfl; exact other _ rfl)
    next => rfl

theorem exponentPart?_before_stop {exponent : Option (Bool × List Char)} {left : List Char}
    (part : exponentPart? text = some (exponent, left)) :
    exponentPart? (text ++ rest) = some (exponent, left ++ rest) := by
  cases text with
  | nil =>
    simp only [exponentPart?, Option.some.injEq, Prod.mk.injEq] at part
    obtain ⟨rfl, rfl⟩ := part
    cases rest with
    | nil => rfl
    | cons c more => exact if_neg (stops_outside_numbers (ends c rfl)).2.2
  | cons mark more =>
    by_cases marked : mark = 'e' ∨ mark = 'E'
    · cases more with
      | nil => simp [exponentPart?, marked] at part
      | cons sign size =>
        rw [List.cons_append, List.cons_append]
        by_cases minus : sign = '-'
        · subst minus
          simp only [exponentPart?, if_pos marked] at part ⊢
          exact digits_before_stop ends (fun digits => some (true, digits)) part
        · by_cases plus : sign = '+'
          · subst plus
            simp only [exponentPart?, if_pos marked] at part ⊢
            exact digits_before_stop ends (fun digits => some (false, digits)) part
          · rw [exponentPart?_unsigned _ marked minus plus] at part ⊢
            exact digits_before_stop ends (fun digits => some (false, digits)) part
    · simp only [exponentPart?, if_neg marked, Option.some.injEq, Prod.mk.injEq] at part
      obtain ⟨rfl, rfl⟩ := part
      exact if_neg marked

theorem parts_before_stop {negative : Bool} {written : NumberText} {left : List Char}
    (read : ((wholePart? text).bind fun (whole, rest) =>
      (fractionPart? rest).bind fun (fraction, rest) =>
        (exponentPart? rest).map fun (exponent, rest) =>
          (NumberText.mk negative whole fraction exponent, rest)) = some (written, left)) :
    ((wholePart? (text ++ rest)).bind fun (whole, rest) =>
      (fractionPart? rest).bind fun (fraction, rest) =>
        (exponentPart? rest).map fun (exponent, rest) =>
          (NumberText.mk negative whole fraction exponent, rest)) = some (written, left ++ rest) := by
  obtain ⟨⟨whole, afterWhole⟩, wholeRead, read⟩ := Option.bind_eq_some_iff.1 read
  obtain ⟨⟨fraction, afterFraction⟩, fractionRead, read⟩ := Option.bind_eq_some_iff.1 read
  obtain ⟨⟨exponent, afterExponent⟩, exponentRead, made⟩ := Option.map_eq_some_iff.1 read
  obtain ⟨rfl, rfl⟩ := Prod.mk.inj made
  simp only [wholePart?_before_stop ends wholeRead, fractionPart?_before_stop ends fractionRead,
    exponentPart?_before_stop ends exponentRead, Option.bind_some, Option.map_some]

theorem number?_before_stop {written : NumberText} {left : List Char}
    (number : number? text = some (written, left)) :
    number? (text ++ rest) = some (written, left ++ rest) := by
  cases text with
  | nil => contradiction
  | cons first more =>
    by_cases minus : first = '-'
    · subst minus
      simp only [List.cons_append, number?] at number ⊢
      exact parts_before_stop ends number
    · rw [List.cons_append]
      rw [number?_unsigned _ minus] at number ⊢
      exact parts_before_stop ends number

end Before

theorem bodyLength?_unit {a b c d : Char} (rest : List Char)
    (digits : [a, b, c, d].all isHexDigit = true) :
    bodyLength? ('\\' :: 'u' :: a :: b :: c :: d :: rest) = (bodyLength? rest).map (· + 6) := by
  rw [bodyLength?, if_pos]
  simpa [Bool.and_assoc] using digits

theorem bodyLength?_escape {c : Char} (rest : List Char) (short : isShortEscape c = true) :
    bodyLength? ('\\' :: c :: rest) = (bodyLength? rest).map (· + 2) := by
  rw [bodyLength?, if_pos short]
  rintro _ _ _ _ _ rfl
  contradiction

theorem bodyLength?_plain {c : Char} (rest : List Char) (quote : c ≠ '"') (backslash : c ≠ '\\')
    (printable : ¬c.toNat < 0x20) : bodyLength? (c :: rest) = (bodyLength? rest).map (· + 1) := by
  rw [bodyLength?]
  · simp [backslash, printable]
  · exact quote
  · exact fun _ _ _ _ _ same => absurd same backslash
  · exact fun _ _ same => absurd same backslash

theorem bodyLength?_append {text : List Char} {length : Nat} (rest : List Char)
    (body : bodyLength? text = some length) :
    bodyLength? (text ++ rest) = some length ∧ length < text.length := by
  have grown {count : Nat} {more : List Char} {longer : Nat}
      (ih : ∀ {length : Nat}, bodyLength? more = some length →
        bodyLength? (more ++ rest) = some length ∧ length < more.length)
      (counted : (bodyLength? more).map (· + count) = some longer) :
      (bodyLength? (more ++ rest)).map (· + count) = some longer ∧ longer < more.length + count := by
    obtain ⟨shorter, found, rfl⟩ := Option.map_eq_some_iff.1 counted
    obtain ⟨still, inside⟩ := ih found
    exact ⟨by rw [still]; rfl, by omega⟩
  fun_induction bodyLength? text generalizing length with
  | case1 | case4 | case6 | case7 => contradiction
  | case2 more =>
    obtain rfl := Option.some.inj body
    exact ⟨rfl, Nat.zero_lt_succ _⟩
  | case3 a b c d more digits ih =>
    have := bodyLength?_unit (more ++ rest) (by simpa [Bool.and_assoc] using digits)
    simp only [List.cons_append, this]
    exact grown ih body
  | case5 c more _ short ih =>
    simp only [List.cons_append, bodyLength?_escape _ short]
    exact grown ih body
  | case8 c more quote _ _ plain ih =>
    simp only [Bool.or_eq_true, decide_eq_true_eq, beq_iff_eq, not_or] at plain
    simp only [List.cons_append, bodyLength?_plain _ quote plain.2 plain.1]
    exact grown ih body

theorem number?_head {text left : List Char} {written : NumberText}
    (number : number? text = some (written, left)) :
    ∃ first more, text = first :: more ∧ (first = '-' ∨ first.isDigit = true) := by
  cases text with
  | nil => contradiction
  | cons first more =>
    refine ⟨first, more, rfl, ?_⟩
    by_cases minus : first = '-'
    · exact .inl minus
    · refine .inr ?_
      rw [number?_unsigned _ minus] at number
      obtain ⟨⟨digits, after⟩, whole, -⟩ := Option.bind_eq_some_iff.1 number
      unfold wholePart? at whole
      split at whole
      next zero => rw [(List.cons.inj zero).1]; rfl
      next =>
        by_cases digit : first.isDigit = true
        · exact digit
        · simp [digit] at whole

theorem first?_number {first : Char} (more : List Char) (start : first = '-' ∨ first.isDigit = true) :
    Token.first? (first :: more) = (number? (first :: more)).map fun (written, rest) =>
      (.number written, (first :: more).length - rest.length) := by
  unfold Token.first?
  split
  iterate 10
    next same => exact absurd ((List.cons.inj same).1 ▸ start) (by decide)
  next => rfl

/-- A token is the same before what ends a value, and does not reach it. -/
theorem first?_before_stop {text rest : List Char} {token : Token} {length : Nat}
    (ends : Stops rest) (read : Token.first? text = some (token, length)) :
    Token.first? (text ++ rest) = some (token, length) ∧ length ≤ text.length := by
  unfold Token.first? at read
  split at read
  iterate 9
    next =>
      obtain ⟨rfl, rfl⟩ := Prod.mk.inj (Option.some.inj read)
      exact ⟨rfl, by simp⟩
  next more =>
    obtain ⟨size, counted, made⟩ := Option.map_eq_some_iff.1 read
    obtain ⟨rfl, rfl⟩ := Prod.mk.inj made
    obtain ⟨still, inside⟩ := bodyLength?_append rest counted
    refine ⟨?_, by rw [List.length_cons]; omega⟩
    rw [List.cons_append, Token.first?, still, Option.map_some,
      List.take_append_of_le_length (Nat.le_of_lt inside)]
  next =>
    -- Only a number is cut off by what follows it, so only here the stop matters.
    obtain ⟨⟨written, left⟩, number, made⟩ := Option.map_eq_some_iff.1 read
    obtain ⟨rfl, rfl⟩ := Prod.mk.inj made
    obtain ⟨first, more, rfl, start⟩ := number?_head number
    have still := number?_before_stop ends number
    rw [List.cons_append] at still ⊢
    rw [first?_number _ start, still, Option.map_some]
    dsimp only
    rw [← List.cons_append, List.length_append, List.length_append, Nat.add_sub_add_right]
    exact ⟨rfl, Nat.sub_le _ _⟩

theorem tokensFrom_covered {covered : Nat} {text : List Char} (inside : covered ≤ text.length) :
    tokensFrom covered text = tokens? (text.drop covered) := by
  induction covered generalizing text with
  | zero => rfl
  | succ covered ih =>
    cases text with
    | nil => contradiction
    | cons c rest => exact ih (Nat.le_of_succ_le_succ inside)

/-- Text that has tokens has them before what ends a value. -/
theorem tokensFrom_before_stop {covered : Nat} {text rest : List Char} {tokens : List Token}
    (ends : Stops rest) (inside : covered ≤ text.length)
    (lexed : tokensFrom covered text = some tokens) :
    tokensFrom covered (text ++ rest) = (tokens? rest).map (tokens ++ ·) := by
  fun_induction tokensFrom covered text generalizing tokens with
  | case1 =>
    obtain rfl := Nat.le_zero.1 inside
    obtain rfl := Option.some.inj lexed
    simp [tokens?]
  | case2 c more covered ih => exact ih (Nat.le_of_succ_le_succ inside) lexed
  | case3 c more space ih =>
    rw [List.cons_append, tokensFrom, if_pos space]
    exact ih (Nat.zero_le _) lexed
  | case4 c more space token length read ih =>
    obtain ⟨still, short⟩ := first?_before_stop ends read
    obtain ⟨later, lexedLater, rfl⟩ := Option.map_eq_some_iff.1 lexed
    rw [List.cons_append] at still
    rw [List.length_cons] at short
    rw [List.cons_append, tokensFrom, if_neg space, still]
    dsimp only
    rw [ih (by omega) lexedLater, Option.map_map]
    rfl
  | case5 => contradiction

theorem tokens?_append {text rest : List Char} {tokens more : List Token}
    (lexed : tokens? text = some tokens) (ends : Stops rest) (lexedRest : tokens? rest = some more) :
    tokens? (text ++ rest) = some (tokens ++ more) := by
  have joined := tokensFrom_before_stop ends (Nat.zero_le _) lexed
  rw [lexedRest] at joined
  exact joined

end VarDoc.Json
