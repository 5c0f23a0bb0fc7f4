/-! Positions inside a text count the bytes of its UTF-8 form. A text is the
list of its characters; cutting at a position that falls inside a character
is refused rather than rounded. -/

set_option autoImplicit false

namespace VarDoc.Text

def width : List Char → Nat
  | [] => 0
  | c :: rest => c.utf8Size + width rest

theorem length_le_width (text : List Char) : text.length ≤ width text := by
  induction text with
  | nil => simp [width]
  | cons c rest ih =>
    have := c.utf8Size_pos
    simp only [width, List.length_cons]
    omega

theorem width_append (first second : List Char) :
    width (first ++ second) = width first + width second := by
  induction first with
  | nil => exact (Nat.zero_add _).symm
  | cons c first ih => rw [List.cons_append, width, width, ih, Nat.add_assoc]

def dropBytes (count : Nat) : List Char → Option (List Char)
  | [] => if count = 0 then some [] else none
  | c :: rest =>
    if count = 0 then some (c :: rest)
    else if c.utf8Size ≤ count then dropBytes (count - c.utf8Size) rest
    else none

def takeBytes (count : Nat) : List Char → Option (List Char)
  | [] => if count = 0 then some [] else none
  | c :: rest =>
    if count = 0 then some []
    else if c.utf8Size ≤ count then (takeBytes (count - c.utf8Size) rest).map (c :: ·)
    else none

def slice (start stop : Nat) (text : List Char) : Option (List Char) :=
  (dropBytes start text).bind (takeBytes (stop - start))

end VarDoc.Text
