import VarDoc.Form.Reader
import VarDoc.Proofs.Lexing

/-! The escapes of string literals. The body of a string stands for the text in
which every escape is replaced by its character, and where some backslash begins no
escape, the first such backslash is reported by the character behind it. The code
behind a `u` is meant to have four digits; it is also taken with a plus sign among
the four characters, and with fewer digits at the end of the body. -/

set_option autoImplicit false

namespace VarDoc

def namedEscapes : List (Char × Char) :=
  [('n', '\n'), ('t', '\t'), ('r', '\r'), ('b', '\x08'), ('f', '\x0c'), ('"', '"'), ('\\', '\\')]

/-- When what is written behind a `u`, with some text following, is the code of a
character. -/
abbrev CodeRule : Type := List Char → List Char → Nat → Prop

def FullCode : CodeRule := fun written _ code =>
  written.length = 4 ∧ (∀ digit ∈ written, isHexDigit digit = true) ∧ code = ofDigits 16 written

def HexNumber (written : List Char) (number : Nat) : Prop :=
  ∃ sign digits, written = sign ++ digits ∧ (sign = [] ∨ sign = ['+']) ∧ digits ≠ [] ∧
    (∀ digit ∈ digits, isHexDigit digit = true) ∧ number = ofDigits 16 digits

/-- The code takes four characters, or all that is left where there are fewer, and
may begin with a plus sign. -/
def TakenCode : CodeRule := fun written follows code =>
  (written.length = 4 ∨ written.length < 4 ∧ follows = []) ∧ HexNumber written code

inductive Escape (rule : CodeRule) : List Char → List Char → Char → Prop where
  | named {mark c : Char} {follows : List Char} (listed : (mark, c) ∈ namedEscapes) :
    Escape rule [mark] follows c
  | code {written follows : List Char} {c : Char} (denotes : rule written follows c.toNat) :
    Escape rule ('u' :: written) follows c
  | octal {digits follows : List Char} {c : Char} (nonempty : digits ≠ [])
    (short : digits.length ≤ 3) (octal : ∀ digit ∈ digits, isOctalDigit digit = true)
    (greedy : digits.length = 3 ∨ ∀ next ∈ follows.head?, isOctalDigit next = false)
    (denotes : c.toNat = ofDigits 8 digits) :
    Escape rule digits follows c

inductive Denotes (rule : CodeRule) (rest : List Char) : List Char → List Char → Prop where
  | nil : Denotes rule rest [] []
  | plain {c : Char} {front text : List Char} (other : c ≠ '\\')
    (further : Denotes rule rest front text) : Denotes rule rest (c :: front) (c :: text)
  | escape {sequence front text : List Char} {c : Char}
    (stands : Escape rule sequence (front ++ rest) c) (further : Denotes rule rest front text) :
    Denotes rule rest ('\\' :: (sequence ++ front)) (c :: text)

def BeginsNoEscape (rule : CodeRule) (text : List Char) : Prop :=
  ∀ sequence follows c, text = sequence ++ follows → ¬ Escape rule sequence follows c

/-- The outcome is the text that the body denotes or, where it denotes none, the
character behind the first backslash that begins no escape. -/
structure EscapesRead (rule : CodeRule) (body : String) : Prop where
  ok_iff : ∀ text, unescape body = .ok text ↔ Denotes rule [] body.toList text.toList
  error_iff : ∀ c, unescape body = .error c ↔
    ∃ front tail text, body.toList = front ++ '\\' :: c :: tail ∧
      Denotes rule ('\\' :: c :: tail) front text ∧ BeginsNoEscape rule (c :: tail)

theorem simpleEscape?_eq_some_iff {mark c : Char} :
    simpleEscape? mark = some c ↔ (mark, c) ∈ namedEscapes := by
  unfold simpleEscape?
  split <;> simp_all [namedEscapes, eq_comm]

theorem characterOfCode?_eq_some_iff {code : Nat} {c : Char} :
    characterOfCode? code = some c ↔ c.toNat = code := by
  unfold characterOfCode?
  constructor
  · intro made
    split at made
    next valid =>
      cases made
      rw [Char.ofNat, dif_pos valid]
      rfl
    next => contradiction
  · rintro rfl
    have valid : c.toNat.isValidChar := c.valid
    rw [if_pos valid, Char.ofNat_toNat]

theorem hexNumber?_eq_some_iff {written : List Char} {code : Nat} :
    hexNumber? written = some code ↔ HexNumber written code := by
  have counted (digits : List Char) :
      (if digits.isEmpty || !digits.all isHexDigit then none else some (ofDigits 16 digits)) =
          some code ↔
        digits ≠ [] ∧ (∀ digit ∈ digits, isHexDigit digit = true) ∧ code = ofDigits 16 digits := by
    simp [and_assoc, @eq_comm _ code]
  unfold hexNumber?
  dsimp only
  split
  next digits =>
    rw [counted]
    constructor
    · exact fun number => ⟨['+'], digits, rfl, .inr rfl, number⟩
    · rintro ⟨sign, others, same, rfl | rfl, number⟩
      · rw [List.nil_append] at same
        have plus := number.2.1 '+' (same ▸ List.mem_cons_self)
        contradiction
      · exact (List.cons.inj same).2 ▸ number
  next unsigned =>
    rw [counted]
    constructor
    · exact fun number => ⟨[], written, rfl, .inl rfl, number⟩
    · rintro ⟨sign, digits, same, rfl | rfl, number⟩
      · exact same ▸ number
      · exact absurd same (unsigned digits)

theorem takeWhile_take_eq_iff {test : Char → Bool} {front rest : List Char} {most : Nat} :
    ((front ++ rest).take most).takeWhile test = front ↔
      front.length ≤ most ∧ (∀ c ∈ front, test c = true) ∧
        (front.length = most ∨ ∀ next ∈ rest.head?, test next = false) := by
  induction front generalizing most with
  | nil =>
    cases most with
    | zero => simp
    | succ most => cases rest <;> simp [List.takeWhile_cons]
  | cons c front ih =>
    cases most with
    | zero => simp
    | succ most => by_cases passes : test c = true <;> simp [passes, ih]

theorem simpleEscape?_octal {mark : Char} (octal : isOctalDigit mark = true) :
    simpleEscape? mark = none := by
  have others : ∀ entry ∈ namedEscapes, isOctalDigit entry.1 = false := by decide
  rw [Option.eq_none_iff_forall_ne_some]
  intro c named
  rw [others _ (simpleEscape?_eq_some_iff.1 named)] at octal
  contradiction

/-- An escape that stands behind a backslash is read to its end and no further. -/
theorem readEscape?_of_escape {first c : Char} {more follows : List Char}
    (escape : Escape TakenCode (first :: more) follows c) :
    readEscape? first (more ++ follows) = some (c, more.length + 1) := by
  cases escape with
  | named listed =>
    rw [readEscape?, simpleEscape?_eq_some_iff.2 listed]
    rfl
  | code denotes =>
    have taken : (more ++ follows).take 4 = more := by
      rcases denotes.1 with four | ⟨fewer, rfl⟩
      · rw [← four, List.take_left]
      · rw [List.append_nil, List.take_of_length_le (Nat.le_of_lt fewer)]
    have number := hexNumber?_eq_some_iff.2 denotes.2
    have unnamed : simpleEscape? 'u' = none := rfl
    simp only [readEscape?, unnamed, if_true, taken, number, Option.bind_some,
      characterOfCode?_eq_some_iff.2 rfl, Option.map_some, Nat.add_comm]
  | octal _ short octal greedy denotes =>
    obtain ⟨firstOctal, moreOctal⟩ := List.forall_mem_cons.1 octal
    have notCode : first ≠ 'u' := by
      rintro rfl
      contradiction
    have taken : ((more ++ follows).take 2).takeWhile isOctalDigit = more :=
      takeWhile_take_eq_iff.2 ⟨Nat.le_of_succ_le_succ short, moreOctal, greedy.imp_left Nat.succ.inj⟩
    rw [readEscape?, simpleEscape?_octal firstOctal]
    simp only [if_neg notCode, if_pos firstOctal, taken, characterOfCode?_eq_some_iff.2 denotes]
    rfl

theorem exists_escape_of_readEscape? {first c : Char} {tail : List Char} {length : Nat}
    (read : readEscape? first tail = some (c, length)) :
    ∃ more follows, tail = more ++ follows ∧ Escape TakenCode (first :: more) follows c := by
  unfold readEscape? at read
  split at read
  next named =>
    cases read
    exact ⟨[], tail, rfl, .named (simpleEscape?_eq_some_iff.1 named)⟩
  next =>
    split at read
    next isCode =>
      subst isCode
      obtain ⟨d, found, same⟩ := Option.map_eq_some_iff.1 read
      cases same
      obtain ⟨code, number, denotes⟩ := Option.bind_eq_some_iff.1 found
      refine ⟨tail.take 4, tail.drop 4, (List.take_append_drop 4 tail).symm, .code ⟨?_, ?_⟩⟩
      · simp only [List.length_take, List.drop_eq_nil_iff]
        omega
      · rw [characterOfCode?_eq_some_iff.1 denotes]
        exact hexNumber?_eq_some_iff.1 number
    next =>
      split at read
      next octal =>
        dsimp only at read
        generalize taken : (tail.take 2).takeWhile isOctalDigit = more at read
        have begins : more <+: tail :=
          taken ▸ (List.takeWhile_prefix isOctalDigit).trans (List.take_prefix 2 tail)
        obtain ⟨follows, rfl⟩ := begins
        obtain ⟨short, octals, greedy⟩ := takeWhile_take_eq_iff.1 taken
        obtain ⟨d, denotes, same⟩ := Option.map_eq_some_iff.1 read
        cases same
        exact ⟨more, follows, rfl, .octal (List.cons_ne_nil first more) (Nat.succ_le_succ short)
          (List.forall_mem_cons.2 ⟨octal, octals⟩) (greedy.imp_left (congrArg Nat.succ))
          (characterOfCode?_eq_some_iff.1 denotes)⟩
      next => contradiction

theorem Escape.ne_nil {rule : CodeRule} {sequence follows : List Char} {c : Char}
    (escape : Escape rule sequence follows c) : sequence ≠ [] := by
  cases escape with
  | named => exact List.cons_ne_nil _ _
  | code => exact List.cons_ne_nil _ _
  | octal nonempty => exact nonempty

theorem readEscape?_eq_none_iff {first : Char} {tail : List Char} :
    readEscape? first tail = none ↔ BeginsNoEscape TakenCode (first :: tail) := by
  constructor
  · intro unread sequence follows c split escape
    obtain ⟨_, more, rfl⟩ := List.exists_cons_of_ne_nil escape.ne_nil
    rw [List.cons_append] at split
    obtain ⟨rfl, rfl⟩ := List.cons.inj split
    rw [readEscape?_of_escape escape] at unread
    contradiction
  · intro bad
    rw [Option.eq_none_iff_forall_ne_some]
    intro found read
    obtain ⟨more, follows, rfl, escape⟩ := exists_escape_of_readEscape? read
    exact bad (first :: more) follows _ rfl escape

theorem unescapeFrom_covered (covered : Nat) (text : List Char) :
    unescapeFrom covered text = unescapeFrom 0 (text.drop covered) := by
  induction text generalizing covered with
  | nil => cases covered <;> rfl
  | cons c rest ih =>
    cases covered with
    | zero => rfl
    | succ more => rw [unescapeFrom, ih, List.drop_succ_cons]

theorem unescapeFrom_plain {c : Char} (other : c ≠ '\\') (rest : List Char) :
    unescapeFrom 0 (c :: rest) = (unescapeFrom 0 rest).map (c :: ·) := by
  simp only [unescapeFrom, if_neg other]

theorem unescapeFrom_escape {sequence follows : List Char} {c : Char}
    (escape : Escape TakenCode sequence follows c) :
    unescapeFrom 0 ('\\' :: (sequence ++ follows)) = (unescapeFrom 0 follows).map (c :: ·) := by
  obtain ⟨first, more, rfl⟩ := List.exists_cons_of_ne_nil escape.ne_nil
  simp only [unescapeFrom, List.cons_append, if_true, readEscape?_of_escape escape]
  rw [unescapeFrom_covered, List.drop_left]

theorem unescapeFrom_bad {c : Char} {tail : List Char} (bad : BeginsNoEscape TakenCode (c :: tail)) :
    unescapeFrom 0 ('\\' :: c :: tail) = .error c := by
  simp only [unescapeFrom, if_true, readEscape?_eq_none_iff.2 bad]

/-- A front that denotes a text is replaced by it, whatever becomes of the rest. -/
theorem Denotes.unescapeFrom_append {rest front text : List Char}
    (denotes : Denotes TakenCode rest front text) :
    unescapeFrom 0 (front ++ rest) = (unescapeFrom 0 rest).map (text ++ ·) := by
  induction denotes with
  | nil =>
    rw [List.nil_append]
    cases unescapeFrom 0 rest <;> rfl
  | plain other _ ih =>
    rw [List.cons_append, unescapeFrom_plain other, ih]
    cases unescapeFrom 0 rest <;> rfl
  | escape stands _ ih =>
    rw [List.cons_append, List.append_assoc, unescapeFrom_escape stands, ih]
    cases unescapeFrom 0 rest <;> rfl

theorem Escape.tail_plain {first c : Char} {more follows : List Char}
    (escape : Escape TakenCode (first :: more) follows c) : '\\' ∉ more := by
  intro listed
  cases escape with
  | named => contradiction
  | code denotes =>
    obtain ⟨-, sign, digits, rfl, signs, -, hex, -⟩ := denotes
    rcases List.mem_append.1 listed with inSign | inDigits
    · rcases signs with rfl | rfl <;> simp at inSign
    · exact absurd (hex _ inDigits) (by decide)
  | octal _ _ octal => exact absurd (octal _ (List.mem_cons_of_mem first listed)) (by decide)

theorem Enclosed.of_append {front rest : List Char} (enclosed : Enclosed (front ++ rest))
    (plain : '\\' ∉ front) : Enclosed rest := by
  induction front with
  | nil => exact enclosed
  | cons c front ih =>
    rw [List.cons_append] at enclosed
    generalize front ++ rest = text at enclosed ih
    cases enclosed with
    | plain _ _ further => exact ih further (List.not_mem_of_not_mem_cons plain)
    | pair => exact absurd List.mem_cons_self plain

/-- A body denotes a text, or some backslash in it is the first that begins no
escape. -/
theorem Enclosed.denotes_or_bad {body : List Char} (enclosed : Enclosed body) :
    (∃ text, Denotes TakenCode [] body text) ∨
      ∃ c front tail text, body = front ++ '\\' :: c :: tail ∧
        Denotes TakenCode ('\\' :: c :: tail) front text ∧ BeginsNoEscape TakenCode (c :: tail) := by
  -- An escape takes more than one character, so that the length decreases and not the tail.
  generalize size : body.length = length
  induction length using Nat.strongRecOn generalizing body with
  | ind length ih =>
    subst size
    cases enclosed with
    | nil => exact .inl ⟨[], .nil⟩
    | @plain c rest _ notBackslash further =>
      rcases ih rest.length (Nat.lt_succ_self _) further rfl with
        ⟨text, denotes⟩ | ⟨bad, front, tail, text, rfl, denotes, begins⟩
      · exact .inl ⟨c :: text, .plain notBackslash denotes⟩
      · exact .inr ⟨bad, c :: front, tail, c :: text, rfl, .plain notBackslash denotes, begins⟩
    | @pair first rest further =>
      cases read : readEscape? first rest with
      | none => exact .inr ⟨first, [], rest, [], rfl, .nil, readEscape?_eq_none_iff.1 read⟩
      | some found =>
        obtain ⟨more, follows, rfl, escape⟩ := exists_escape_of_readEscape? read
        have enclosed := further.of_append escape.tail_plain
        have shorter : follows.length < ('\\' :: first :: (more ++ follows)).length := by
          rw [List.length_cons, List.length_cons, List.length_append]
          omega
        rcases ih follows.length shorter enclosed rfl with
          ⟨text, denotes⟩ | ⟨bad, front, tail, text, rfl, denotes, begins⟩
        · refine .inl ⟨found.1 :: text, ?_⟩
          rw [← List.cons_append]
          refine .escape ?_ denotes
          rwa [List.append_nil]
        · refine .inr ⟨bad, '\\' :: (first :: more ++ front), tail, found.1 :: text, ?_, ?_, begins⟩
          · simp
          · exact .escape escape denotes

theorem Denotes.unescapeFrom_eq {body text : List Char} (denotes : Denotes TakenCode [] body text) :
    unescapeFrom 0 body = .ok text := by
  have whole := denotes.unescapeFrom_append
  rw [List.append_nil] at whole
  rw [whole, unescapeFrom, Except.map, List.append_nil]

theorem Denotes.unescapeFrom_bad {c : Char} {front tail text : List Char}
    (denotes : Denotes TakenCode ('\\' :: c :: tail) front text)
    (bad : BeginsNoEscape TakenCode (c :: tail)) :
    unescapeFrom 0 (front ++ '\\' :: c :: tail) = .error c := by
  rw [denotes.unescapeFrom_append, VarDoc.unescapeFrom_bad bad]
  rfl

theorem unescape_eq_ok_iff {body text : String} :
    unescape body = .ok text ↔ unescapeFrom 0 body.toList = .ok text.toList := by
  unfold unescape
  cases unescapeFrom 0 body.toList with
  | error c => simp [Except.map]
  | ok read => simp [Except.map, ← String.toList_inj]

theorem unescape_eq_error_iff {body : String} {c : Char} :
    unescape body = .error c ↔ unescapeFrom 0 body.toList = .error c := by
  unfold unescape
  cases unescapeFrom 0 body.toList <;> simp [Except.map]

theorem Enclosed.escapesRead {body : String} (enclosed : Enclosed body.toList) :
    EscapesRead TakenCode body where
  ok_iff text := by
    rw [unescape_eq_ok_iff]
    refine ⟨fun read => ?_, Denotes.unescapeFrom_eq⟩
    rcases enclosed.denotes_or_bad with ⟨other, denotes⟩ | ⟨c, front, tail, text, split, denotes, bad⟩
    · rw [denotes.unescapeFrom_eq] at read
      exact Except.ok.inj read ▸ denotes
    · rw [split, denotes.unescapeFrom_bad bad] at read
      contradiction
  error_iff c := by
    rw [unescape_eq_error_iff]
    constructor
    · intro failed
      rcases enclosed.denotes_or_bad with ⟨text, denotes⟩ | ⟨d, front, tail, text, split, denotes, bad⟩
      · rw [denotes.unescapeFrom_eq] at failed
        contradiction
      · rw [split, denotes.unescapeFrom_bad bad] at failed
        cases failed
        exact ⟨front, tail, text, split, denotes, bad⟩
    · rintro ⟨front, tail, text, split, denotes, bad⟩
      rw [split, denotes.unescapeFrom_bad bad]

/-- The code at the beginning of the text is taken though it does not have four
digits. -/
def LooseCode (text : List Char) : Prop :=
  ∃ written follows code, text = written ++ follows ∧ TakenCode written follows code ∧
    (written.length < 4 ∨ '+' ∈ written)

def MeetsLooseCode (body : List Char) : Prop :=
  ∃ front tail text, body = front ++ '\\' :: 'u' :: tail ∧
    Denotes FullCode ('\\' :: 'u' :: tail) front text ∧ LooseCode tail

theorem FullCode.taken {written follows : List Char} {code : Nat}
    (full : FullCode written follows code) : TakenCode written follows code := by
  obtain ⟨four, hex, value⟩ := full
  refine ⟨.inl four, [], written, rfl, .inl rfl, ?_, hex, value⟩
  rintro rfl
  contradiction

theorem TakenCode.full_or_loose {written follows : List Char} {code : Nat}
    (taken : TakenCode written follows code) :
    FullCode written follows code ∨ LooseCode (written ++ follows) := by
  by_cases loose : written.length < 4 ∨ '+' ∈ written
  · exact .inr ⟨written, follows, code, rfl, taken, loose⟩
  · obtain ⟨length, sign, digits, rfl, rfl | rfl, -, hex, value⟩ := taken
    · rw [not_or] at loose
      have four : ([] ++ digits).length = 4 := by omega
      exact .inl ⟨four, hex, value⟩
    · exact absurd (.inr List.mem_cons_self) loose

theorem Escape.taken {sequence follows : List Char} {c : Char}
    (escape : Escape FullCode sequence follows c) : Escape TakenCode sequence follows c := by
  cases escape with
  | named listed => exact .named listed
  | code denotes => exact .code denotes.taken
  | octal nonempty short octal greedy denotes => exact .octal nonempty short octal greedy denotes

theorem Denotes.taken {rest front text : List Char} (denotes : Denotes FullCode rest front text) :
    Denotes TakenCode rest front text := by
  induction denotes with
  | nil => exact .nil
  | plain other _ ih => exact .plain other ih
  | escape stands _ ih => exact .escape stands.taken ih

theorem Escape.full_or_loose {sequence follows : List Char} {c : Char}
    (escape : Escape TakenCode sequence follows c) :
    Escape FullCode sequence follows c ∨
      ∃ tail, sequence ++ follows = 'u' :: tail ∧ LooseCode tail := by
  cases escape with
  | named listed => exact .inl (.named listed)
  | octal nonempty short octal greedy denotes => exact .inl (.octal nonempty short octal greedy denotes)
  | code denotes =>
    rcases denotes.full_or_loose with full | loose
    · exact .inl (.code full)
    · exact .inr ⟨_, rfl, loose⟩

theorem MeetsLooseCode.plain {c : Char} {body : List Char} (other : c ≠ '\\')
    (meets : MeetsLooseCode body) : MeetsLooseCode (c :: body) := by
  obtain ⟨front, tail, text, rfl, denotes, loose⟩ := meets
  exact ⟨c :: front, tail, c :: text, rfl, .plain other denotes, loose⟩

theorem MeetsLooseCode.escape {sequence body : List Char} {c : Char}
    (escape : Escape FullCode sequence body c) (meets : MeetsLooseCode body) :
    MeetsLooseCode ('\\' :: (sequence ++ body)) := by
  obtain ⟨front, tail, text, rfl, denotes, loose⟩ := meets
  refine ⟨'\\' :: (sequence ++ front), tail, c :: text, by simp, .escape escape denotes, loose⟩

theorem Denotes.full {rest front text : List Char} (denotes : Denotes TakenCode rest front text)
    (strict : ¬ MeetsLooseCode (front ++ rest)) : Denotes FullCode rest front text := by
  induction denotes with
  | nil => exact .nil
  | plain other _ ih => exact .plain other (ih (mt (.plain other) strict))
  | @escape sequence front text c stands _ ih =>
    rw [List.cons_append, List.append_assoc] at strict
    rcases stands.full_or_loose with full | ⟨tail, same, loose⟩
    · exact .escape full (ih (mt (.escape full) strict))
    · rw [same] at strict
      exact absurd ⟨[], tail, [], rfl, .nil, loose⟩ strict

theorem EscapesRead.full {body : String} (read : EscapesRead TakenCode body)
    (strict : ¬ MeetsLooseCode body.toList) : EscapesRead FullCode body where
  ok_iff text := by
    rw [read.ok_iff]
    constructor
    · intro denotes
      rw [← List.append_nil body.toList] at strict
      exact denotes.full strict
    · exact Denotes.taken
  error_iff c := by
    rw [read.error_iff]
    constructor
    · rintro ⟨front, tail, text, split, denotes, bad⟩
      rw [split] at strict
      exact ⟨front, tail, text, split, denotes.full strict,
        fun sequence follows d same escape => bad sequence follows d same escape.taken⟩
    · rintro ⟨front, tail, text, split, denotes, bad⟩
      refine ⟨front, tail, text, split, denotes.taken, fun sequence follows d same escape => ?_⟩
      -- An escape that only counts as taken is a loose code, and the scan has come to it.
      rcases escape.full_or_loose with full | ⟨tail, begins, loose⟩
      · exact bad sequence follows d same full
      · rw [← same] at begins
        rw [split, begins] at strict
        rw [begins] at denotes
        exact strict ⟨front, tail, text, rfl, denotes, loose⟩

theorem enclosed_of_lexed {text : List Char} {token : Token} (lexed : .token token ∈ lex text)
    (isString : token.kind = .string) : Enclosed (lexemeInside 1 token.lexeme).toList := by
  have spelled := spelled_of_lexed lexed
  rw [isString] at spelled
  obtain ⟨body, same, enclosed⟩ := spelled.string
  rw [lexemeInside, same, List.drop_succ_cons, List.drop_zero, List.dropLast_concat,
    String.toList_ofList]
  exact enclosed

/-- For every string token, reading the escapes of its body gives the text that it
denotes, or the character behind the first backslash that begins no escape. It is
so for codes of exactly four digits too, unless a loose code comes first. -/
theorem string_escapes_read_exactly {text : List Char} {token : Token}
    (lexed : .token token ∈ lex text) (isString : token.kind = .string) :
    EscapesRead TakenCode (lexemeInside 1 token.lexeme) ∧
      (¬ MeetsLooseCode (lexemeInside 1 token.lexeme).toList →
        EscapesRead FullCode (lexemeInside 1 token.lexeme)) := by
  have read := (enclosed_of_lexed lexed isString).escapesRead
  exact ⟨read, read.full⟩

/-- A code of four digits and an octal escape with a digit behind it that is not
octal. -/
theorem code_and_octal_escape_read :
    let token := Token.at .string "\"a\\u00e9\\1018\"".toList 0
    .token token ∈ lex "\"a\\u00e9\\1018\"".toList ∧ token.kind = .string ∧
      ¬ MeetsLooseCode (lexemeInside 1 token.lexeme).toList ∧
      Denotes FullCode [] (lexemeInside 1 token.lexeme).toList "aéA8".toList := by
  intro token
  have lexed : .token token ∈ lex "\"a\\u00e9\\1018\"".toList := by decide +kernel
  have body : (lexemeInside 1 token.lexeme).toList =
      ['a', '\\', 'u', '0', '0', 'e', '9', '\\', '1', '0', '1', '8'] := by decide +kernel
  have strict : ¬ MeetsLooseCode (lexemeInside 1 token.lexeme).toList := by
    rw [body]
    rintro ⟨front, tail, text, split, -, written, follows, code, rfl, ⟨length, -⟩, loose⟩
    obtain ⟨_, -, -, behind⟩ : ∃ more, front = 'a' :: more ∧ more = [] ∧
        written ++ follows = ['0', '0', 'e', '9', '\\', '1', '0', '1', '8'] := by
      simpa [List.cons_eq_append_iff] using split
    have nine := congrArg List.length behind
    rcases loose with few | plus
    · rcases length with four | ⟨-, rfl⟩
      · omega
      · rw [List.append_nil] at nine
        simp only [List.length_cons, List.length_nil] at nine
        omega
    · have listed := List.mem_append_left follows plus
      rw [behind] at listed
      exact absurd listed (by decide)
  have read : unescape (lexemeInside 1 token.lexeme) = .ok "aéA8" := by
    rw [unescape_eq_ok_iff, body]
    rfl
  exact ⟨lexed, rfl, strict, (((string_escapes_read_exactly lexed rfl).2 strict).ok_iff "aéA8").1 read⟩

/-- A code of two digits at the end of the body is taken. -/
theorem short_code_taken :
    let token := Token.at .string "\"\\u41\"".toList 0
    lex "\"\\u41\"".toList = [.token token] ∧ unescape (lexemeInside 1 token.lexeme) = .ok "A" ∧
      ∀ text, ¬ Denotes FullCode [] (lexemeInside 1 token.lexeme).toList text := by
  intro token
  have body : (lexemeInside 1 token.lexeme).toList = ['\\', 'u', '4', '1'] := by decide +kernel
  have read : unescape (lexemeInside 1 token.lexeme) = .ok "A" := by
    rw [unescape_eq_ok_iff, body]
    rfl
  refine ⟨by decide +kernel, read, fun text denotes => ?_⟩
  rw [body] at denotes
  generalize whole : ['\\', 'u', '4', '1'] = characters at denotes
  cases denotes with
  | nil => contradiction
  | plain other => exact other (List.cons.inj whole).1.symm
  | escape stands =>
    have behind := (List.cons.inj whole).2
    cases stands with
    | named listed =>
      obtain ⟨rfl, -⟩ := List.cons.inj behind
      simp [namedEscapes] at listed
    | code denotes =>
      have few := congrArg List.length (List.cons.inj behind).2
      have four := denotes.1
      simp only [List.append_eq, List.length_append, List.length_cons, List.length_nil] at few
      omega
    | octal nonempty _ octal =>
      obtain ⟨first, more, rfl⟩ := List.exists_cons_of_ne_nil nonempty
      obtain ⟨rfl, -⟩ := List.cons.inj behind
      exact absurd (octal _ List.mem_cons_self) (by decide)

end VarDoc
