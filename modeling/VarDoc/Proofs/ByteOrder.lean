import VarDoc.Dict

/-! Texts in the order of their code points are in the order of their bytes in
UTF-8 as well. -/

set_option autoImplicit false

namespace VarDoc

def bytesOf (text : String) : List UInt8 := text.toUTF8.data.toList

/-- The lists differ at some place, and at the first such place the left one
has the smaller byte. -/
def FirstSmaller : List UInt8 → List UInt8 → Prop
  | left :: lefts, right :: rights => left < right ∨ left = right ∧ FirstSmaller lefts rights
  | _, _ => False

theorem FirstSmaller.append {left right : List UInt8} (smaller : FirstSmaller left right)
    (leftRest rightRest : List UInt8) : left ++ leftRest < right ++ rightRest := by
  induction left generalizing right with
  | nil => cases smaller
  | cons first lefts ih =>
    cases right with
    | nil => cases smaller
    | cons second rights =>
      rw [List.cons_append, List.cons_append, List.cons_lt_cons_iff]
      exact smaller.imp id fun later => ⟨later.1, ih later.2⟩

theorem toNat_val_lt (c : Char) : c.val.toNat < 0x110000 := by
  have valid := c.valid
  simp only [UInt32.isValidChar, Nat.isValidChar] at valid
  omega

/-- Among codes of four bytes the first digit to base 64 that differs decides. -/
theorem digits_lt {left right : Nat} (before : left < right) :
    left / 0x40000 < right / 0x40000 ∨ left / 0x40000 = right / 0x40000 ∧
      (left / 0x1000 % 64 < right / 0x1000 % 64 ∨ left / 0x1000 % 64 = right / 0x1000 % 64 ∧
        (left / 64 % 64 < right / 64 % 64 ∨ left / 64 % 64 = right / 64 % 64 ∧
          left % 64 < right % 64)) := by
  have whole (code : Nat) : code = code / 0x40000 * 0x40000 + code / 0x1000 % 64 * 0x1000 +
      code / 64 % 64 * 64 + code % 64 := by omega
  have leftWhole := whole left
  have rightWhole := whole right
  have small (code : Nat) : code % 64 < 64 := Nat.mod_lt _ (by decide)
  have bounds := And.intro (And.intro (small (left / 0x1000)) (small (right / 0x1000)))
    (And.intro (And.intro (small (left / 64)) (small (right / 64))) (And.intro (small left) (small right)))
  generalize left / 0x40000 = l0, left / 0x1000 % 64 = l1, left / 64 % 64 = l2, left % 64 = l3,
    right / 0x40000 = r0, right / 0x1000 % 64 = r1, right / 64 % 64 = r2, right % 64 = r3 at *
  omega

theorem utf8EncodeChar_long {c : Char} (long : 0xffff < c.val.toNat) :
    String.utf8EncodeChar c = [UInt8.ofNat (c.val.toNat / 0x40000 + 240),
      UInt8.ofNat (c.val.toNat / 0x1000 % 64 + 128), UInt8.ofNat (c.val.toNat / 64 % 64 + 128),
      UInt8.ofNat (c.val.toNat % 64 + 128)] := by
  have bound := toNat_val_lt c
  have top : c.val.toNat / 0x40000 % 8 = c.val.toNat / 0x40000 := by omega
  unfold String.utf8EncodeChar
  dsimp only
  rw [if_neg (by omega), if_neg (by omega), if_neg (by omega), top]

theorem firstSmaller_encode {left right : Char} (before : left < right) :
    FirstSmaller (String.utf8EncodeChar left) (String.utf8EncodeChar right) := by
  have order : left.val.toNat < right.val.toNat := before
  have leftBound := toNat_val_lt left
  have rightBound := toNat_val_lt right
  by_cases long : 0xffff < left.val.toNat
  · have digits := digits_lt order
    rw [utf8EncodeChar_long long, utf8EncodeChar_long (Nat.lt_trans long order)]
    simp only [FirstSmaller, UInt8.lt_iff_toNat_lt, ← UInt8.toNat_inj, UInt8.toNat_ofNat']
    simp (disch := omega) only [Nat.mod_eq_of_lt]
    omega
  · unfold String.utf8EncodeChar
    dsimp only
    repeat' split
    all_goals
      simp only [FirstSmaller, UInt8.lt_iff_toNat_lt, ← UInt8.toNat_inj, UInt8.toNat_ofNat']
      omega

theorem bytesOf_eq (text : String) : bytesOf text = text.toList.flatMap String.utf8EncodeChar := by
  have encoded : text.toUTF8 = (text.toList.flatMap String.utf8EncodeChar).toByteArray := by
    rw [String.toUTF8_eq_toByteArray, ← String.utf8Encode_toList]
    rfl
  rw [bytesOf, encoded, List.data_toByteArray]

theorem bytesOf_lt {left right : String} (before : left < right) : bytesOf left < bytesOf right := by
  rw [String.lt_iff] at before
  rw [bytesOf_eq, bytesOf_eq]
  generalize left.toList = lefts at before
  generalize right.toList = rights at before
  induction lefts generalizing rights with
  | nil =>
    cases rights with
    | nil => exact absurd before (List.lt_irrefl _)
    | cons c rights =>
      obtain ⟨first, more, bytes⟩ := List.exists_cons_of_ne_nil (@String.utf8EncodeChar_ne_nil c)
      rw [List.flatMap_cons, bytes]
      exact List.nil_lt_cons _ _
  | cons c lefts ih =>
    cases rights with
    | nil => exact absurd before (List.not_lt_nil _)
    | cons d rights =>
      rw [List.flatMap_cons, List.flatMap_cons]
      rcases List.cons_lt_cons_iff.1 before with smaller | ⟨rfl, later⟩
      · exact (firstSmaller_encode smaller).append _ _
      · exact List.append_left_lt (ih _ later)

end VarDoc
