/-! Patterns for the names in a path. A question mark stands for one
character, a star for any number of them, brackets for one of a set; two stars
are a whole part of a path and stand for any number of directories. -/

set_option autoImplicit false

namespace VarDoc.Glob

inductive Member where
  | single (c : Char)
  | range (first last : Char)
  deriving DecidableEq, Repr

def Member.has (c : Char) : Member → Bool
  | .single member => c == member
  | .range first last => first ≤ c && c ≤ last

def members : List Char → List Member
  | first :: '-' :: last :: rest => .range first last :: members rest
  | c :: rest => .single c :: members rest
  | [] => []

inductive Token where
  | char (c : Char)
  | anyOne
  | anySequence
  /-- Any number of directories. -/
  | anyDepth
  | oneOf (set : List Member)
  | noneOf (set : List Member)
  deriving DecidableEq, Repr

/-- The characters of a set and what follows its closing bracket. The first
character is a member even if it is a closing bracket. -/
def setBody? : List Char → Option (List Char × List Char)
  | [] => none
  | first :: rest =>
    match rest.dropWhile (· != ']') with
    | _ :: following => some (first :: rest.takeWhile (· != ']'), following)
    | [] => none

def setToken? : List Char → Option (Token × List Char)
  | '!' :: rest => (setBody? rest).map fun (set, following) => (.noneOf (members set), following)
  | rest => (setBody? rest).map fun (set, following) => (.oneOf (members set), following)

/-- What two stars leave of the pattern. They must fill a part of the path:
`before` is the character in front of them, if there is one. -/
def afterDepth? (before : Option Char) (rest : List Char) : Option (Option Char × List Char) :=
  if before.all (· == '/') then
    match rest with
    | [] => some (none, [])
    | '/' :: following => some (some '/', following)
    | _ => none
  else none

theorem length_lt_of_setBody? {text set following : List Char}
    (found : setBody? text = some (set, following)) : following.length < text.length := by
  cases text with
  | nil => simp [setBody?] at found
  | cons first rest =>
    simp only [setBody?] at found
    split at found
    next c tail dropped =>
      obtain ⟨_, rfl⟩ := Prod.mk.inj (Option.some.inj found)
      have shorter := (List.dropWhile_suffix (l := rest) (· != ']')).length_le
      rw [dropped] at shorter
      simp only [List.length_cons] at shorter ⊢
      omega
    next => contradiction

theorem length_lt_of_setToken? {text following : List Char} {token : Token}
    (found : setToken? text = some (token, following)) : following.length < text.length := by
  unfold setToken? at found
  split at found
  next rest =>
    simp only [Option.map_eq_some_iff, Prod.mk.injEq] at found
    obtain ⟨⟨set, tail⟩, body, _, rfl⟩ := found
    exact Nat.lt_succ_of_lt (length_lt_of_setBody? body)
  next =>
    simp only [Option.map_eq_some_iff, Prod.mk.injEq] at found
    obtain ⟨⟨set, tail⟩, body, _, rfl⟩ := found
    exact length_lt_of_setBody? body

theorem length_le_of_afterDepth? {before last : Option Char} {rest following : List Char}
    (found : afterDepth? before rest = some (last, following)) :
    following.length ≤ rest.length := by
  unfold afterDepth? at found
  split at found
  · split at found
    · obtain ⟨_, rfl⟩ := Prod.mk.inj (Option.some.inj found)
      exact Nat.le_refl _
    · obtain ⟨_, rfl⟩ := Prod.mk.inj (Option.some.inj found)
      exact Nat.le_succ _
    · contradiction
  · contradiction

def tokensAfter? (before : Option Char) : List Char → Option (List Token)
  | [] => some []
  | '*' :: '*' :: '*' :: _ => none
  | '*' :: '*' :: rest =>
    match _found : afterDepth? before rest with
    | some (last, following) => (tokensAfter? last following).map (.anyDepth :: ·)
    | none => none
  | c :: rest =>
    if c = '*' then (tokensAfter? (some c) rest).map (.anySequence :: ·)
    else if c = '?' then (tokensAfter? (some c) rest).map (.anyOne :: ·)
    else if c = '[' then
      match _found : setToken? rest with
      | some (token, following) => (tokensAfter? (some ']') following).map (token :: ·)
      | none => none
    else (tokensAfter? (some c) rest).map (.char c :: ·)
termination_by text => text.length
decreasing_by
  · have shorter := length_le_of_afterDepth? _found
    simp only [List.length_cons]
    omega
  · simp
  · simp
  · have shorter := length_lt_of_setToken? _found
    simp only [List.length_cons]
    omega
  · simp

def tokens? (pattern : List Char) : Option (List Token) := tokensAfter? none pattern

def Token.accepts (c : Char) : Token → Bool
  | .char member => c == member
  | .anyOne => true
  | .oneOf set => set.any (·.has c)
  | .noneOf set => !set.any (·.has c)
  | .anySequence | .anyDepth => false

def ends : List Char → List (List Char)
  | [] => [[]]
  | c :: rest => (c :: rest) :: ends rest

def accepts : List Token → List Char → Bool
  | [], name => name.isEmpty
  | token :: rest, name =>
    if token = .anySequence ∨ token = .anyDepth then (ends name).any (accepts rest)
    else
      match name with
      | [] => false
      | c :: tail => token.accepts c && accepts rest tail

def escape (text : List Char) : List Char :=
  text.flatMap fun c => if ['?', '*', '[', ']'].contains c then ['[', c, ']'] else [c]

end VarDoc.Glob
