import VarDoc.FileTree

/-! The files met while a namespace is loaded. A path can only be read if its
text is short, and there are finitely many short texts, so that following
loads comes to an end. -/

set_option autoImplicit false

namespace VarDoc

/-- A text as a number: its characters are the digits, in a base larger than
every code point. -/
def textCode : List Char → Nat
  | [] => 0
  | c :: rest => textCode rest * 0x110001 + (c.toNat + 1)

theorem toNat_lt_codes (c : Char) : c.toNat + 1 < 0x110001 := by
  have valid := c.valid
  simp only [UInt32.isValidChar, Nat.isValidChar] at valid
  simp only [Char.toNat]
  omega

theorem textCode_injective {left right : List Char} (same : textCode left = textCode right) :
    left = right := by
  induction left generalizing right with
  | nil =>
    cases right with
    | nil => rfl
    | cons c rest => simp only [textCode] at same; omega
  | cons c rest ih =>
    cases right with
    | nil => simp only [textCode] at same; omega
    | cons c' rest' =>
      simp only [textCode] at same
      have bound := toNat_lt_codes c
      have bound' := toNat_lt_codes c'
      have heads : c.toNat = c'.toNat := by omega
      have tails : textCode rest = textCode rest' := by omega
      rw [ih tails, Char.toNat_inj.1 heads]

theorem textCode_lt (text : List Char) : textCode text < Nat.pow 0x110001 text.length := by
  induction text with
  | nil => simp [textCode]
  | cons c rest ih =>
    have bound := toNat_lt_codes c
    simp only [textCode, List.length_cons, Nat.pow]
    calc textCode rest * 0x110001 + (c.toNat + 1)
        < textCode rest * 0x110001 + 0x110001 := by omega
      _ = (textCode rest + 1) * 0x110001 := by rw [Nat.add_mul, Nat.one_mul]
      _ ≤ Nat.pow 0x110001 rest.length * 0x110001 := Nat.mul_le_mul_right _ ih

def codesUpTo (limit : Nat) : Nat := Nat.pow 0x110001 limit

theorem textCode_lt_of_length_le {text : List Char} {limit : Nat} (short : text.length ≤ limit) :
    textCode text < codesUpTo limit :=
  Nat.lt_of_lt_of_le (textCode_lt text) (Nat.pow_le_pow_right (by decide) short)

theorem length_le_of_distinct_below {bound : Nat} {numbers : List Nat}
    (distinct : numbers.Nodup) (below : ∀ n ∈ numbers, n < bound) : numbers.length ≤ bound := by
  induction bound generalizing numbers with
  | zero =>
    cases numbers with
    | nil => simp
    | cons n rest => exact absurd (below n (by simp)) (by omega)
  | succ bound ih =>
    have rest := ih (distinct.erase bound) (by
      intro n member
      have smaller := below n (List.mem_of_mem_erase member)
      have other : n ≠ bound := fun same => distinct.not_mem_erase (same ▸ member)
      omega)
    have := List.le_length_erase (a := bound) (l := numbers)
    omega

structure Visited where
  paths : List Path
  distinct : (paths.map Path.text).Nodup
  short : ∀ path ∈ paths, path.size < FileTree.pathLimit

namespace Visited

def empty : Visited := ⟨[], by simp, by simp⟩

/-- A path counts as met under every spelling with the same components. -/
def has (visited : Visited) (path : Path) : Bool := visited.paths.any (·.same path)

def add (visited : Visited) (path : Path) (new : visited.has path = false)
    (short : path.size < FileTree.pathLimit) : Visited where
  paths := path :: visited.paths
  distinct := by
    simp only [List.map_cons, List.nodup_cons]
    refine ⟨?_, visited.distinct⟩
    intro member
    obtain ⟨other, isMember, sameText⟩ := List.mem_map.1 member
    have isSame : other = path := by
      cases other; cases path; simp_all
    subst isSame
    simp only [has, List.any_eq_false] at new
    exact new other isMember (by simp [Path.same])
  short := by
    intro other member
    rcases List.mem_cons.1 member with same | earlier
    · exact same ▸ short
    · exact visited.short other earlier

def capacity : Nat := codesUpTo FileTree.pathLimit

theorem size_le (visited : Visited) : visited.paths.length ≤ capacity := by
  have bounded : (visited.paths.map fun path => textCode path.text.toList).length ≤ capacity := by
    apply length_le_of_distinct_below
    · have mapped : (visited.paths.map fun path => textCode path.text.toList) =
          (visited.paths.map Path.text).map (fun text => textCode text.toList) := by simp
      rw [mapped]
      refine List.Pairwise.map _ ?_ visited.distinct
      intro left right different same
      exact different (String.toList_injective (textCode_injective same))
    · intro code member
      obtain ⟨path, isMember, rfl⟩ := List.mem_map.1 member
      have short := visited.short path isMember
      have fewer : path.text.toList.length ≤ FileTree.pathLimit := by
        have := Text.length_le_width path.text.toList
        simp only [Path.size] at short
        omega
      exact textCode_lt_of_length_le fewer
  simpa using bounded

end Visited

end VarDoc
