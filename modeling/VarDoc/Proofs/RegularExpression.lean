import Mathlib.Computability.Language
import VarDoc.Text.Blank

/-! Regular expressions over characters and the languages they denote. A class
of characters is written as it stands between square brackets: single
characters, ranges and white space, or all characters but these. -/

set_option autoImplicit false

namespace VarDoc

open scoped Computability

inductive ClassItem where
  | one (c : Char)
  | range (low high : Char)
  /-- White space, as Unicode has it. -/
  | blank
  deriving DecidableEq, Repr

def ClassItem.has : ClassItem → Char → Bool
  | .one wanted, c => c == wanted
  | .range low high, c => low ≤ c && c ≤ high
  | .blank, c => Text.isBlank c

inductive CharClass where
  | oneOf (items : List ClassItem)
  | noneOf (items : List ClassItem)
  deriving DecidableEq, Repr

def CharClass.has : CharClass → Char → Bool
  | .oneOf items, c => items.any (·.has c)
  | .noneOf items, c => !items.any (·.has c)

inductive Regex where
  | empty
  | char (allowed : CharClass)
  | seq (first second : Regex)
  | either (first second : Regex)
  | star (inner : Regex)
  deriving DecidableEq, Repr

namespace Regex

def literal : List Char → Regex
  | [] => .empty
  | c :: rest => .seq (.char (.oneOf [.one c])) (literal rest)

def plus (inner : Regex) : Regex := .seq inner (.star inner)

def optional (inner : Regex) : Regex := .either .empty inner

def exactly : Nat → Regex → Regex
  | 0, _ => .empty
  | more + 1, inner => .seq inner (exactly more inner)

def atMost : Nat → Regex → Regex
  | 0, _ => .empty
  | more + 1, inner => optional (.seq inner (atMost more inner))

def texts (listed : List (List Char)) (otherwise : Regex) : Regex :=
  listed.foldr (fun wanted others => .either (literal wanted) others) otherwise

def language : Regex → Language Char
  | .empty => 1
  | .char allowed => {text | ∃ c, allowed.has c = true ∧ text = [c]}
  | .seq first second => first.language * second.language
  | .either first second => first.language + second.language
  | .star inner => inner.language∗

section
variable {text : List Char} {allowed : CharClass} {first second inner rest : Regex}

@[simp] theorem mem_empty : text ∈ empty.language ↔ text = [] := Iff.rfl

@[simp] theorem mem_either :
    text ∈ (either first second).language ↔ text ∈ first.language ∨ text ∈ second.language :=
  Iff.rfl

theorem mem_char : text ∈ (char allowed).language ↔ ∃ c, allowed.has c = true ∧ text = [c] :=
  Iff.rfl

theorem mem_seq :
    text ∈ (seq first second).language ↔
      ∃ front ∈ first.language, ∃ back ∈ second.language, front ++ back = text :=
  Language.mem_mul

@[simp] theorem nil_mem_char : [] ∈ (char allowed).language ↔ False := by simp [mem_char]

@[simp] theorem cons_mem_char {c : Char} :
    c :: text ∈ (char allowed).language ↔ allowed.has c = true ∧ text = [] := by
  rw [mem_char]
  constructor
  · rintro ⟨other, allows, same⟩
    obtain ⟨rfl, rfl⟩ := List.cons.inj same
    exact ⟨allows, rfl⟩
  · rintro ⟨allows, rfl⟩
    exact ⟨c, allows, rfl⟩

@[simp] theorem nil_mem_char_seq : [] ∈ (seq (char allowed) rest).language ↔ False := by
  simp [mem_seq, mem_char]

@[simp] theorem cons_mem_char_seq {c : Char} :
    c :: text ∈ (seq (char allowed) rest).language ↔ allowed.has c = true ∧ text ∈ rest.language := by
  rw [mem_seq]
  constructor
  · rintro ⟨front, ⟨other, allows, rfl⟩, back, matched, same⟩
    obtain ⟨rfl, rfl⟩ := List.cons.inj same
    exact ⟨allows, matched⟩
  · rintro ⟨allows, matched⟩
    exact ⟨[c], ⟨c, allows, rfl⟩, text, matched, rfl⟩

@[simp] theorem has_one {c wanted : Char} :
    (CharClass.oneOf [.one wanted]).has c = true ↔ c = wanted := by
  simp [CharClass.has, ClassItem.has]

theorem mem_either_seq :
    text ∈ (seq (either first second) rest).language ↔
      text ∈ (seq first rest).language ∨ text ∈ (seq second rest).language := by
  have distributed : (seq (either first second) rest).language =
      (seq first rest).language + (seq second rest).language := add_mul _ _ _
  rw [distributed]
  exact Iff.rfl

theorem mem_seq_seq :
    text ∈ (seq (seq first second) rest).language ↔ text ∈ (seq first (seq second rest)).language := by
  have associated : (seq (seq first second) rest).language =
      (seq first (seq second rest)).language := mul_assoc _ _ _
  rw [associated]

theorem mem_empty_seq : text ∈ (seq empty rest).language ↔ text ∈ rest.language := by
  have same : (seq empty rest).language = rest.language := one_mul _
  rw [same]

theorem mem_optional_seq :
    text ∈ (seq (optional first) rest).language ↔
      text ∈ rest.language ∨ text ∈ (seq first rest).language := by
  rw [Regex.optional, mem_either_seq, mem_empty_seq]

theorem mem_literal {wanted : List Char} : text ∈ (literal wanted).language ↔ text = wanted := by
  induction wanted generalizing text with
  | nil => exact mem_empty
  | cons c wanted ih =>
    rw [literal]
    cases text with
    | nil => simp
    | cons d text => rw [cons_mem_char_seq, has_one, ih, List.cons.injEq]

theorem mem_literal_seq {wanted : List Char} :
    text ∈ (seq (literal wanted) rest).language ↔ ∃ back ∈ rest.language, text = wanted ++ back := by
  rw [mem_seq]
  constructor
  · rintro ⟨front, isWanted, back, matched, rfl⟩
    exact ⟨back, matched, by rw [mem_literal.1 isWanted]⟩
  · rintro ⟨back, matched, rfl⟩
    exact ⟨wanted, mem_literal.2 rfl, back, matched, rfl⟩

theorem mem_star_seq :
    text ∈ (seq (star inner) rest).language ↔
      text ∈ rest.language ∨ text ∈ (seq inner (seq (star inner) rest)).language := by
  have unrolled : (seq (star inner) rest).language =
      rest.language + (seq inner (seq (star inner) rest)).language := by
    simp only [language]
    calc inner.language∗ * rest.language
        = (1 + inner.language * inner.language∗) * rest.language := by
          rw [Language.one_add_self_mul_kstar_eq_kstar]
      _ = rest.language + inner.language * (inner.language∗ * rest.language) := by
          rw [add_mul, one_mul, mul_assoc]
  rw [unrolled]
  exact Iff.rfl

theorem mem_star_char :
    text ∈ (star (char allowed)).language ↔ ∀ c ∈ text, allowed.has c = true := by
  have alone : (star (char allowed)).language = (seq (star (char allowed)) empty).language :=
    (mul_one _).symm
  rw [alone]
  induction text with
  | nil => simp [mem_star_seq]
  | cons c text ih =>
    rw [mem_star_seq]
    simp [ih]

theorem mem_exactly_char {count : Nat} :
    text ∈ (exactly count (char allowed)).language ↔
      text.length = count ∧ ∀ c ∈ text, allowed.has c = true := by
  induction count generalizing text with
  | zero =>
    rw [exactly, mem_empty, List.length_eq_zero_iff]
    constructor
    · rintro rfl
      simp
    · exact fun both => both.1
  | succ more ih =>
    rw [exactly]
    cases text with
    | nil => simp
    | cons c text => simp [ih, and_left_comm]

theorem mem_atMost_char {count : Nat} :
    text ∈ (atMost count (char allowed)).language ↔
      text.length ≤ count ∧ ∀ c ∈ text, allowed.has c = true := by
  induction count generalizing text with
  | zero =>
    rw [atMost, mem_empty, Nat.le_zero, List.length_eq_zero_iff]
    constructor
    · rintro rfl
      simp
    · exact fun both => both.1
  | succ more ih =>
    rw [atMost, optional]
    cases text with
    | nil => simp
    | cons c text => simp [ih, and_left_comm]

theorem mem_texts {listed : List (List Char)} {otherwise : Regex} :
    text ∈ (texts listed otherwise).language ↔ text ∈ listed ∨ text ∈ otherwise.language := by
  induction listed with
  | nil => simp [texts]
  | cons wanted others ih =>
    rw [texts, List.foldr_cons, mem_either, mem_literal, List.mem_cons, or_assoc]
    exact or_congr_right ih

theorem mem_plus_char :
    text ∈ (plus (char allowed)).language ↔ text ≠ [] ∧ ∀ c ∈ text, allowed.has c = true := by
  rw [plus]
  cases text with
  | nil => simp
  | cons c text => simp [mem_star_char]

end

end Regex

end VarDoc
