import VarDoc.Discovery
import VarDoc.Proofs.Paths

/-! Patterns that stand for themselves. Escaped text is read back as one token
for each of its characters, and these accept the text and nothing else, whatever
wildcards are in it. With that, the pattern for the files below a root is read as
the names of the root, any depth, and a name with the extension. -/

set_option autoImplicit false

namespace VarDoc.Glob

def wild : List Char := ['?', '*', '[', ']']

def literal (c : Char) : Token := if wild.contains c then .oneOf [.single c] else .char c

theorem escape_cons (c : Char) (rest : List Char) :
    escape (c :: rest) = (if wild.contains c then ['[', c, ']'] else [c]) ++ escape rest := rfl

theorem tokensAfter?_plain {c : Char} (plain : c ∉ wild) (before : Option Char) (rest : List Char) :
    tokensAfter? before (c :: rest) = (tokensAfter? (some c) rest).map (.char c :: ·) := by
  simp only [wild, List.mem_cons, not_or] at plain
  rw [tokensAfter?]
  · simp [plain]
  · exact fun _ star _ => plain.2.1 star
  · exact fun _ star _ => plain.2.1 star

theorem tokensAfter?_bracketed {c : Char} (escaped : c ∈ wild) (before : Option Char) (rest : List Char) :
    tokensAfter? before ('[' :: c :: ']' :: rest) =
      (tokensAfter? (some ']') rest).map (.oneOf [.single c] :: ·) := by
  have set : setToken? (c :: ']' :: rest) = some (.oneOf [.single c], rest) := by
    simp only [wild, List.mem_cons, List.not_mem_nil, or_false] at escaped
    rcases escaped with rfl | rfl | rfl | rfl <;> rfl
  rw [tokensAfter?, if_neg (by decide), if_neg (by decide), if_pos rfl]
  · split
    next token following found =>
      obtain ⟨rfl, rfl⟩ := Prod.mk.inj (Option.some.inj (set.symm.trans found))
      rfl
    next missing => rw [set] at missing; cases missing
  · exact fun _ star _ => absurd star (by decide)
  · exact fun _ star _ => absurd star (by decide)

/-- Escaped text is read as its characters. What follows is read after some character of it. -/
theorem tokensAfter?_escape (text rest : List Char) (before : Option Char) :
    ∃ last, tokensAfter? before (escape text ++ rest) =
      (tokensAfter? last rest).map (text.map literal ++ ·) := by
  induction text generalizing before with
  | nil => exact ⟨before, by simp [escape]⟩
  | cons c more ih =>
    rw [escape_cons, List.map_cons, literal]
    by_cases escaped : c ∈ wild
    · obtain ⟨last, read⟩ := ih (some ']')
      refine ⟨last, ?_⟩
      rw [if_pos (List.contains_iff_mem.2 escaped), if_pos (List.contains_iff_mem.2 escaped)]
      change tokensAfter? before ('[' :: c :: ']' :: (escape more ++ rest)) = _
      rw [tokensAfter?_bracketed escaped, read, Option.map_map]
      rfl
    · obtain ⟨last, read⟩ := ih (some c)
      refine ⟨last, ?_⟩
      rw [if_neg (mt List.contains_iff_mem.1 escaped), if_neg (mt List.contains_iff_mem.1 escaped)]
      change tokensAfter? before (c :: (escape more ++ rest)) = _
      rw [tokensAfter?_plain escaped, read, Option.map_map]
      rfl

theorem tokens?_escape (text : List Char) : tokens? (escape text) = some (text.map literal) := by
  obtain ⟨last, read⟩ := tokensAfter?_escape text [] none
  rw [List.append_nil, tokensAfter?] at read
  rw [tokens?, read, Option.map_some, List.append_nil]

theorem accepts_literal (c other : Char) : (literal c).accepts other = true ↔ other = c := by
  unfold literal
  split <;> simp [Token.accepts, Member.has]

theorem literal_ne (c : Char) : literal c ≠ .anySequence ∧ literal c ≠ .anyDepth := by
  unfold literal
  split <;> simp

theorem accepts_literals (text name : List Char) : accepts (text.map literal) name = true ↔ name = text := by
  induction text generalizing name with
  | nil => simp [accepts]
  | cons c rest ih =>
    have single : ¬(literal c = .anySequence ∨ literal c = .anyDepth) := not_or.2 (literal_ne c)
    cases name with
    | nil => simp [accepts, single]
    | cons first tail =>
      rw [List.map_cons, accepts, if_neg single, Bool.and_eq_true, accepts_literal, ih, List.cons.injEq]

theorem mem_ends {text name : List Char} : text ∈ ends name ↔ text <:+ name := by
  induction name with
  | nil => simp [ends]
  | cons c rest ih => rw [ends, List.mem_cons, ih, List.suffix_cons_iff]

theorem accepts_ending (text name : List Char) :
    accepts (.anySequence :: text.map literal) name = true ↔ text <:+ name := by
  have any : accepts (.anySequence :: text.map literal) name =
      (ends name).any (accepts (text.map literal)) := by
    cases name <;> rfl
  rw [any, List.any_eq_true]
  constructor
  · rintro ⟨tail, member, accepted⟩
    rw [accepts_literals] at accepted
    exact accepted ▸ mem_ends.1 member
  · exact fun ending => ⟨text, mem_ends.2 ending, (accepts_literals text text).2 rfl⟩

def Part.literal (name : List Char) : Part := .ofTokens (name.map Glob.literal)

theorem contains_anyDepth (text : List Char) : (text.map literal).contains .anyDepth = false := by
  rw [← Bool.not_eq_true, List.contains_iff_mem, List.mem_map]
  rintro ⟨c, -, depth⟩
  exact (literal_ne c).2 depth

theorem mapM_char? (text : List Char) :
    (text.map literal).mapM Token.char? = if text.any wild.contains then none else some text := by
  induction text with
  | nil => rfl
  | cons c rest ih =>
    rw [List.map_cons, List.mapM_cons, ih, literal, List.any_cons]
    cases wild.contains c with
    | true => rfl
    | false => cases rest.any wild.contains <;> rfl

/-- Only a name with wildcards is not looked up but compared with the names that are there. -/
theorem Part.literal_cases (name : List Char) :
    Part.literal name = .exactly (String.ofList name) ∨
      Part.literal name = .like (name.map Glob.literal) ∧ ∃ c ∈ name, c ∈ wild := by
  rw [Part.literal, Part.ofTokens, contains_anyDepth, mapM_char?]
  cases escaped : name.any wild.contains with
  | true =>
    obtain ⟨c, member, special⟩ := List.any_eq_true.1 escaped
    exact .inr ⟨rfl, c, member, List.contains_iff_mem.1 special⟩
  | false => exact .inl rfl

def Part.withExtension (extension : List Char) : Part :=
  .like (.anySequence :: ('.' :: extension).map Glob.literal)

theorem ofTokens_extension (extension : List Char) :
    Part.ofTokens (.anySequence :: ('.' :: extension).map literal) = .withExtension extension := by
  rw [Part.ofTokens, List.contains_cons, contains_anyDepth]
  rfl

theorem unslashed_escape_char {c : Char} (different : c ≠ '/') : '/' ∉ escape [c] := by
  rw [escape_cons]
  split <;> simp [escape, Ne.symm different]

theorem splitSlashes_unslashed_append {front text part : List Char} {parts : List (List Char)}
    (unslashed : '/' ∉ front) (split : splitSlashes text = part :: parts) :
    splitSlashes (front ++ text) = (front ++ part) :: parts := by
  induction front with
  | nil => exact split
  | cons c rest ih =>
    rw [List.mem_cons, not_or] at unslashed
    rw [List.cons_append, splitSlashes, if_neg (Ne.symm unslashed.1), ih unslashed.2]
    rfl

theorem splitSlashes_escape (text : List Char) :
    splitSlashes (escape text) = (splitSlashes text).map escape := by
  induction text with
  | nil => rfl
  | cons c rest ih =>
    have escaped : escape (c :: rest) = escape [c] ++ escape rest := by simp [escape]
    by_cases slash : c = '/'
    · subst slash
      rw [escaped, splitSlashes, if_pos rfl, List.map_cons, ← ih]
      rfl
    · obtain ⟨part, parts, split⟩ := List.exists_cons_of_ne_nil (splitSlashes_ne_nil rest)
      rw [split, List.map_cons] at ih
      rw [escaped, splitSlashes_unslashed_append (unslashed_escape_char slash) ih, splitSlashes,
        if_neg slash, split]
      simp [escape]

theorem escape_of_plain {text : List Char} (plain : ∀ c ∈ text, c ∉ wild) : escape text = text := by
  induction text with
  | nil => rfl
  | cons c rest ih =>
    have plainFirst : ¬wild.contains c = true := mt List.contains_iff_mem.1 (plain c List.mem_cons_self)
    rw [escape_cons, if_neg plainFirst, ih fun other member => plain other (List.mem_cons_of_mem _ member)]
    rfl

theorem tokensAfter?_depth {before last : Option Char} {rest following : List Char}
    (after : afterDepth? before rest = some (last, following)) (two : rest.head? ≠ some '*') :
    tokensAfter? before ('*' :: '*' :: rest) = (tokensAfter? last following).map (.anyDepth :: ·) := by
  rw [tokensAfter?]
  · split
    next found =>
      obtain ⟨rfl, rfl⟩ := Prod.mk.inj (Option.some.inj (after.symm.trans found))
      rfl
    next missing => rw [after] at missing; cases missing
  · rintro tail rfl
    exact two rfl

section

variable {extension : List Char}

theorem tokensAfter?_extension (plain : ∀ c ∈ extension, c ∉ wild) (before : Option Char) :
    tokensAfter? before ('*' :: '.' :: extension) =
      some (.anySequence :: ('.' :: extension).map literal) := by
  have plainDotted : ∀ c ∈ '.' :: extension, c ∉ wild := by
    intro c member
    rcases List.mem_cons.1 member with rfl | later
    · decide
    · exact plain c later
  obtain ⟨last, read⟩ := tokensAfter?_escape ('.' :: extension) [] (some '*')
  rw [escape_of_plain plainDotted, List.append_nil, tokensAfter?, Option.map_some, List.append_nil] at read
  rw [tokensAfter?, if_pos rfl, read]
  · rfl
  · exact fun _ _ dot => absurd (List.cons.inj dot).1 (by decide)
  · exact fun _ _ dot => absurd (List.cons.inj dot).1 (by decide)

theorem mapM_tokens?_escape (names : List (List Char)) (rest : List (List Char)) :
    (names.map escape ++ rest).mapM tokens? =
      (rest.mapM tokens?).map (names.map (List.map literal) ++ ·) := by
  induction names with
  | nil => simp
  | cons name more ih =>
    rw [List.map_cons, List.cons_append, List.mapM_cons, tokens?_escape, ih]
    cases rest.mapM tokens? <;> rfl

theorem splitParts_of_ending {text : List Char} {before : List (List Char)} {c : Char} {last : List Char}
    (split : splitSlashes text = before ++ [c :: last]) : splitParts text = before ++ [c :: last] := by
  rw [splitParts, split, List.reverse_append]
  rfl

theorem tokens?_below (plain : ∀ c ∈ extension, c ∉ wild) (unslashed : '/' ∉ extension) (root : List Char) :
    (tokens? (escape root ++ '/' :: '*' :: '*' :: '/' :: '*' :: '.' :: extension)).isSome = true ∧
    (splitParts (escape root ++ '/' :: '*' :: '*' :: '/' :: '*' :: '.' :: extension)).mapM tokens? =
      some ((splitSlashes root).map (List.map literal) ++
        [[.anyDepth], .anySequence :: ('.' :: extension).map literal]) := by
  have unslashedStar : '/' ∉ '*' :: '.' :: extension := by simp [unslashed]
  have split : splitSlashes (escape root ++ '/' :: '*' :: '*' :: '/' :: '*' :: '.' :: extension) =
      ((splitSlashes root).map escape ++ [['*', '*']]) ++ ['*' :: '.' :: extension] := by
    have depth : splitSlashes ('*' :: '*' :: '/' :: '*' :: '.' :: extension) =
        ['*', '*'] :: splitSlashes ('*' :: '.' :: extension) := splitSlashes_append_slash ['*', '*'] _
    rw [splitSlashes_append_slash, splitSlashes_escape, depth, splitSlashes_of_unslashed unslashedStar,
      List.append_assoc]
    rfl
  have depth : tokens? ['*', '*'] = some [.anyDepth] := by
    rw [tokens?, tokensAfter?_depth rfl (by decide), tokensAfter?]
    rfl
  constructor
  · obtain ⟨last, read⟩ :=
      tokensAfter?_escape root ('/' :: '*' :: '*' :: '/' :: '*' :: '.' :: extension) none
    rw [tokens?, read, tokensAfter?_plain (by decide), tokensAfter?_depth rfl (by simp),
      tokensAfter?_extension plain]
    rfl
  · rw [splitParts_of_ending split, List.append_assoc, mapM_tokens?_escape]
    change Option.map _ ([['*', '*'], '*' :: '.' :: extension].mapM tokens?) = _
    rw [List.mapM_cons, List.mapM_cons, List.mapM_nil, depth, tokens?, tokensAfter?_extension plain]
    rfl

end

/-- The pattern for the files below a root has the names of the root, any depth and the extension
for its parts. -/
theorem read?_pattern {root : Path} {extension : String} (nonempty : root.text ≠ "")
    (relative : root.isAbsolute = false) (plain : ∀ c ∈ extension.toList, c ∉ wild)
    (unslashed : '/' ∉ extension.toList) :
    Pattern.read? (Discovery.pattern root extension) =
      some ⟨false, root.parts.map Part.literal ++ [.depth, .withExtension extension.toList], false⟩ := by
  have text : (Discovery.pattern root extension).toList =
      escape root.text.toList ++ '/' :: '*' :: '*' :: '/' :: '*' :: '.' :: extension.toList := by
    simp [Discovery.pattern]
  obtain ⟨readable, parts⟩ := tokens?_below plain unslashed root.text.toList
  obtain ⟨tokens, read⟩ := Option.isSome_iff_exists.1 readable
  obtain ⟨c, rest, starts⟩ := List.exists_cons_of_ne_nil (mt String.toList_eq_nil_iff.1 nonempty)
  have different : c ≠ '/' := by
    rintro rfl
    simp [Path.isAbsolute, starts] at relative
  obtain ⟨first, more, escaped, unslashedFirst⟩ :
      ∃ first more, escape root.text.toList = first :: more ∧ first ≠ '/' := by
    rw [starts, escape_cons]
    by_cases special : wild.contains c = true
    · exact ⟨'[', _, by rw [if_pos special]; rfl, by decide⟩
    · exact ⟨c, _, by rw [if_neg special]; rfl, different⟩
  have last : (Discovery.pattern root extension).toList.getLast? ≠ some '/' := by
    intro ends
    rw [text, List.getLast?_append, List.getLast?_cons_cons, List.getLast?_cons_cons, List.getLast?_cons_cons,
      List.getLast?_cons_cons, List.getLast?_cons, Option.some_or, ← List.getLast?_cons] at ends
    have member := List.mem_of_getLast? ends
    simp [unslashed] at member
  have unslashedText : (Discovery.pattern root extension).toList.dropWhile (· == '/') =
      (Discovery.pattern root extension).toList := by
    rw [text, escaped]
    simp [unslashedFirst]
  rw [← text] at read parts
  unfold Pattern.read?
  have head : (Discovery.pattern root extension).toList.head? ≠ some '/' := by
    rw [text, escaped]
    simpa using unslashedFirst
  simp only [unslashedText, read, parts, Option.bind_eq_bind, Option.bind_some, beq_false_of_ne head,
    beq_false_of_ne last, List.map_append]
  rw [List.map_cons, List.map_singleton, ofTokens_extension, List.map_map]
  rfl

end VarDoc.Glob
