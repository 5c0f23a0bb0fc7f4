import VarDoc.Proofs.ByteOrder
import VarDoc.Proofs.TextPositions

/-! Locations of byte offsets. The line of an offset counts the line feeds among the
bytes before it, also where it falls inside a character; between two characters the
column counts those since the last line feed. Locations are therefore in the order of
the boundaries that they belong to, and tell these apart. -/

set_option autoImplicit false

namespace VarDoc

namespace Text

/-- The offset stands between two characters of the text, or at one of its ends. -/
def Boundary (text : List Char) (offset : Nat) : Prop :=
  ∃ front back, text = front ++ back ∧ width front = offset

theorem length_encode (text : List Char) :
    (text.flatMap String.utf8EncodeChar).length = width text := by
  induction text with
  | nil => rfl
  | cons c rest ih => rw [List.flatMap_cons, List.length_append, ih, String.length_utf8EncodeChar, width]

theorem encode_high {c : Char} (long : 0x7f < c.val.toNat) :
    ∀ byte ∈ String.utf8EncodeChar c, 0x80 ≤ byte.toNat := by
  have bound := toNat_val_lt c
  unfold String.utf8EncodeChar
  dsimp only
  rw [if_neg (by omega)]
  repeat' split
  all_goals
    simp only [List.forall_mem_cons, UInt8.toNat_ofNat', List.not_mem_nil, false_implies, implies_true,
      and_true]
    omega

theorem count_feed_encode (c : Char) :
    (String.utf8EncodeChar c).count 10 = if c = '\n' then 1 else 0 := by
  have feed : c = '\n' ↔ c.val.toNat = 10 := Char.toNat_inj.symm
  by_cases long : 0x7f < c.val.toNat
  · have absent : (10 : UInt8) ∉ String.utf8EncodeChar c := fun member =>
      absurd (encode_high long 10 member) (by decide)
    rw [List.count_eq_zero_of_not_mem absent, if_neg (by rw [feed]; omega)]
  · have single : String.utf8EncodeChar c = [UInt8.ofNat c.val.toNat] := by
      unfold String.utf8EncodeChar
      dsimp only
      rw [if_pos (by omega)]
    have byte : UInt8.ofNat c.val.toNat = 10 ↔ c = '\n' := by
      rw [feed, ← UInt8.toNat_inj, UInt8.toNat_ofNat', Nat.mod_eq_of_lt (by omega)]
      rfl
    rw [single, List.count_singleton]
    simp only [beq_iff_eq, byte]

theorem count_feed (text : List Char) :
    (text.flatMap String.utf8EncodeChar).count 10 = text.count '\n' := by
  induction text with
  | nil => rfl
  | cons c rest ih =>
    rw [List.flatMap_cons, List.count_append, ih, count_feed_encode, List.count_cons, Nat.add_comm]
    simp only [beq_iff_eq]

/-- Before every offset there is a last boundary: behind it ends the text, or the
offset falls into the next character. -/
theorem exists_last_boundary (text : List Char) (offset : Nat) :
    ∃ front back, text = front ++ back ∧ width front ≤ offset ∧
      ∀ c rest, back = c :: rest → offset < width front + c.utf8Size := by
  induction text generalizing offset with
  | nil => exact ⟨[], [], rfl, Nat.zero_le _, nofun⟩
  | cons c text ih =>
    by_cases inside : offset < c.utf8Size
    · refine ⟨[], c :: text, rfl, Nat.zero_le _, ?_⟩
      rintro _ _ ⟨⟩
      rwa [width, Nat.zero_add]
    · obtain ⟨front, back, rfl, before, next⟩ := ih (offset - c.utf8Size)
      refine ⟨c :: front, back, rfl, by rw [width]; omega, fun d rest split => ?_⟩
      have bound := next d rest split
      rw [width]
      omega

/-- A line feed is one byte, so none is cut by an offset inside a character. -/
theorem count_feed_take {front back : List Char} {offset : Nat} (before : width front ≤ offset)
    (next : ∀ c rest, back = c :: rest → offset < width front + c.utf8Size) :
    (((front ++ back).flatMap String.utf8EncodeChar).take offset).count 10 = front.count '\n' := by
  have whole : (front.flatMap String.utf8EncodeChar).take offset = front.flatMap String.utf8EncodeChar :=
    List.take_of_length_le (by rwa [length_encode])
  rw [List.flatMap_append, List.take_append, whole, List.count_append, count_feed, length_encode,
    Nat.add_eq_left, List.count_eq_zero]
  intro member
  cases back with
  | nil => simp at member
  | cons c rest =>
    have bound := next c rest rfl
    rw [List.flatMap_cons, List.take_append_of_le_length
      (by rw [String.length_utf8EncodeChar]; omega)] at member
    -- The byte is in the code of the character, which is a line feed then and has no other byte.
    have feed := count_feed_encode c
    have present := List.count_pos_iff.2 (List.mem_of_mem_take member)
    have same : c = '\n' := by
      by_contra different
      rw [if_neg different] at feed
      omega
    subst same
    have outside : offset - width front = 0 := by
      have size : '\n'.utf8Size = 1 := rfl
      omega
    rw [outside] at member
    simp at member

theorem width_of_takeBytes {count : Nat} {text taken : List Char}
    (took : takeBytes count text = some taken) : width taken = count := by
  fun_induction takeBytes count text generalizing taken with
  | case1 | case3 =>
    cases took
    rfl
  | case2 | case5 => contradiction
  | case4 count c rest nonzero fits ih =>
    obtain ⟨later, tookLater, rfl⟩ := Option.map_eq_some_iff.1 took
    rw [width, ih tookLater]
    omega

end Text

namespace Location

def Before (earlier later : Location) : Prop :=
  earlier.line < later.line ∨ earlier.line = later.line ∧ earlier.column < later.column

theorem Before.ne {earlier later : Location} (before : earlier.Before later) : earlier ≠ later := by
  rintro rfl
  rcases before with line | ⟨-, column⟩
  · exact Nat.lt_irrefl _ line
  · exact Nat.lt_irrefl _ column

theorem after_before (front : List Char) {more : List Char} (nonempty : more ≠ []) :
    (after front).Before (after (front ++ more)) := by
  by_cases feed : '\n' ∈ more
  · have feeds := List.count_pos_iff.2 feed
    left
    simp only [after, List.count_append]
    omega
  · have passing : ∀ c ∈ more.reverse, (c != '\n') = true := by
      intro c member
      rw [bne_iff_ne]
      rintro rfl
      exact feed (List.mem_reverse.1 member)
    have length := List.length_pos_iff.2 nonempty
    refine .inr ⟨?_, ?_⟩
    · rw [after, after, List.count_append, List.count_eq_zero_of_not_mem feed, Nat.add_zero]
    · simp only [after, List.reverse_append, List.takeWhile_append_of_pos passing, List.length_append,
        List.length_reverse]
      omega

end Location

namespace LineIndex

theorem locate_before {text : List Char} {earlier later : Nat} (boundary : Text.Boundary text earlier)
    (other : Text.Boundary text later) (less : earlier < later) :
    ((ofText text).locate text earlier).Before ((ofText text).locate text later) := by
  obtain ⟨front, back, rfl, rfl⟩ := boundary
  obtain ⟨longer, rest, same, rfl⟩ := other
  rcases List.append_eq_append_iff.1 same with ⟨more, rfl, -⟩ | ⟨more, rfl, -⟩
  · have nonempty : more ≠ [] := by
      rintro rfl
      simp at less
    rw [locate_append, same, locate_append]
    exact Location.after_before front nonempty
  · rw [Text.width_append] at less
    omega

/-- All line feeds that an offset has not passed end behind it. -/
theorem ahead_of_next {back : List Char} {start offset : Nat}
    (next : ∀ c rest, back = c :: rest → offset < start + c.utf8Size) :
    ∀ later ∈ lineStartsFrom start back, offset < later := by
  intro later listed
  cases back with
  | nil => contradiction
  | cons c rest =>
    have bound := next c rest rfl
    rw [lineStartsFrom] at listed
    split at listed
    · rcases List.mem_cons.1 listed with rfl | more
      · exact bound
      · have bounds := lineStartsFrom_bounds more
        omega
    · have bounds := lineStartsFrom_bounds listed
      omega

theorem line_locate (text : List Char) (offset : Nat) : ((ofText text).locate text offset).line =
    1 + ((text.flatMap String.utf8EncodeChar).take (min offset (Text.width text))).count 10 := by
  obtain ⟨front, back, rfl, before, next⟩ := Text.exists_last_boundary text offset
  have within : Text.width front ≤ min offset (Text.width (front ++ back)) := by
    rw [Text.width_append]
    omega
  have nextWithin : ∀ c rest, back = c :: rest →
      min offset (Text.width (front ++ back)) < Text.width front + c.utf8Size := by
    intro c rest split
    have bound := next c rest split
    omega
  rw [Text.count_feed_take within nextWithin, Nat.add_comm]
  exact congrArg (· + 1) (line_ofText before (ahead_of_next next))

theorem exists_lineStart (text : List Char) (offset : Nat) :
    ∃ start, (ofText text).lineStart? offset = some start ∧ start ≤ min offset (Text.width text) := by
  obtain ⟨front, back, rfl, before, next⟩ := Text.exists_last_boundary text offset
  obtain ⟨earlier, split, start⟩ := lastStart_eq front
  refine ⟨_, lineStart?_ofText before (ahead_of_next next), ?_⟩
  have inside : Text.width earlier ≤ Text.width front := by
    rw [split, Text.width_append]
    exact Nat.le_add_right _ _
  rw [start, Text.width_append]
  omega

theorem column_locate_le (index : LineIndex) (text : List Char) (offset : Nat) :
    (index.locate text offset).column ≤ Text.width text + 1 := by
  unfold locate
  dsimp only
  split
  next characters cut =>
    rw [Text.slice, Option.bind_eq_some_iff] at cut
    obtain ⟨rest, -, took⟩ := cut
    have width := Text.width_of_takeBytes took
    have length := Text.length_le_width characters
    have inside := Nat.min_le_right offset (Text.width text)
    omega
  next => exact Nat.succ_le_succ (Nat.le_trans (Nat.sub_le _ _) (Nat.min_le_right _ _))

theorem start_le_width {text : List Char} {start : Nat} (listed : start ∈ (ofText text).starts) :
    start ≤ Text.width text := by
  rw [ofText, List.mem_toArray] at listed
  rcases List.mem_cons.1 listed with rfl | later
  · exact Nat.zero_le _
  · have bounds := lineStartsFrom_bounds later
    omega

/-- In a source of fewer than 2³² - 1 bytes every line start is a number of 32 bits. Every offset of
32 bits is then located without fault: the line that the search finds is in the index and starts
neither behind the offset nor behind the end, and line and column are numbers of 32 bits. The line
is one more than the line feeds in the bytes before the offset or the end, and where this is a
boundary, the column is one more than the characters since the last line feed. So locations
are in the order of the boundaries, and those of two boundaries differ. -/
theorem offsets_located (source : String) (short : (bytesOf source).length < UInt32.size - 1) :
    let text := source.toList
    let index := ofText text
    (∀ start ∈ index.starts, start < UInt32.size) ∧
    (∀ offset : UInt32,
      let stop := min offset.toNat (bytesOf source).length
      let location := index.locate text offset.toNat
      (∃ start, index.lineStart? offset.toNat = some start ∧ start ≤ stop) ∧
      location.line < UInt32.size ∧ location.column < UInt32.size ∧
      location.line = 1 + ((bytesOf source).take stop).count 10 ∧
      ∀ front back, text = front ++ back → Text.width front = stop →
        location.column = 1 + (front.reverse.takeWhile (· != '\n')).length) ∧
    (∀ earlier later, Text.Boundary text earlier → Text.Boundary text later → earlier < later →
      (index.locate text earlier).Before (index.locate text later)) ∧
    ∀ first second, Text.Boundary text first → Text.Boundary text second →
      index.locate text first = index.locate text second → first = second := by
  intro text index
  have bytes : bytesOf source = text.flatMap String.utf8EncodeChar := bytesOf_eq source
  have length : (bytesOf source).length = Text.width text := by rw [bytes, Text.length_encode]
  have small : Text.width text + 1 < UInt32.size := by omega
  refine ⟨fun start listed => ?_, fun offset => ?_, fun _ _ => locate_before, ?_⟩
  · exact Nat.lt_of_le_of_lt (start_le_width listed) (by omega)
  · intro stop location
    have line : location.line = 1 + ((bytesOf source).take stop).count 10 := by
      have counted := line_locate text offset.toNat
      rwa [← length, ← bytes] at counted
    have feeds : ((bytesOf source).take stop).count 10 ≤ (bytesOf source).length :=
      Nat.le_trans List.count_le_length (List.length_take_le' _ _)
    have column := index.column_locate_le text offset.toNat
    refine ⟨?_, by omega, Nat.lt_of_le_of_lt column small, line, fun front back split boundary => ?_⟩
    · have started := exists_lineStart text offset.toNat
      rwa [← length] at started
    · have stops : min offset.toNat (Text.width (front ++ back)) = Text.width front := by
        rw [← split, ← length, boundary]
      have located := locate_of_stop stops
      rw [← split] at located
      exact (congrArg Location.column located).trans (Nat.add_comm _ _)
  · intro first second boundary other same
    rcases Nat.lt_trichotomy first second with less | equal | greater
    · exact absurd same (locate_before boundary other less).ne
    · exact equal
    · exact absurd same.symm (locate_before other boundary greater).ne

/-- Inside a wide character, behind it, and past the end; and across the line feed. -/
theorem wide_characters_located :
    let source := "é\nλx"
    let text := source.toList
    let index := ofText text
    (bytesOf source).length < UInt32.size - 1 ∧ (index.locate text 4).line = 2 ∧
      (index.locate text 5).column = 2 ∧ (index.locate text 9).column = 3 ∧
      (index.locate text 2).Before (index.locate text 3) := by
  intro source text index
  have short : (bytesOf source).length < UInt32.size - 1 := by decide +kernel
  obtain ⟨-, locations, ordered, -⟩ := offsets_located source short
  refine ⟨short, ?_, ?_, ?_, ?_⟩
  · exact (locations 4).2.2.2.1.trans (by decide +kernel)
  · exact (locations 5).2.2.2.2 ['é', '\n', 'λ'] ['x'] (by decide +kernel) (by decide +kernel)
  · exact (locations 9).2.2.2.2 ['é', '\n', 'λ', 'x'] [] (by decide +kernel) (by decide +kernel)
  · exact ordered 2 3 ⟨['é'], ['\n', 'λ', 'x'], by decide +kernel, by decide +kernel⟩
      ⟨['é', '\n'], ['λ', 'x'], by decide +kernel, by decide +kernel⟩ (by decide)

end LineIndex

end VarDoc
