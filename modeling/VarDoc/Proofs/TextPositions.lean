import Mathlib.Data.List.Induction
import VarDoc.Source.Location

/-! Positions in a text. A part is cut out of a text at the width of what stands
before it. The search for a line ends behind the starts that an offset has reached.
What comes after some characters is therefore located by them alone: by the line
feeds among them, and by how many characters follow the last of these. -/

set_option autoImplicit false

namespace VarDoc

namespace Text

theorem dropBytes_zero (text : List Char) : dropBytes 0 text = some text := by
  cases text <;> rfl

theorem takeBytes_zero (text : List Char) : takeBytes 0 text = some [] := by
  cases text <;> rfl

theorem dropBytes_append (front back : List Char) :
    dropBytes (width front) (front ++ back) = some back := by
  induction front with
  | nil => exact dropBytes_zero back
  | cons c front ih =>
    have wide := c.utf8Size_pos
    rw [List.cons_append, dropBytes, width, if_neg (by omega), if_pos (by omega),
      Nat.add_sub_cancel_left, ih]

theorem takeBytes_append (front back : List Char) :
    takeBytes (width front) (front ++ back) = some front := by
  induction front with
  | nil => exact takeBytes_zero back
  | cons c front ih =>
    have wide := c.utf8Size_pos
    rw [List.cons_append, takeBytes, width, if_neg (by omega), if_pos (by omega),
      Nat.add_sub_cancel_left, ih, Option.map_some]

theorem slice_append (front part back : List Char) :
    slice (width front) (width front + width part) (front ++ part ++ back) = some part := by
  rw [slice, List.append_assoc, dropBytes_append, Option.bind_some, Nat.add_sub_cancel_left,
    takeBytes_append]

end Text

def Location.after (front : List Char) : Location :=
  ⟨front.count '\n' + 1, (front.reverse.takeWhile (· != '\n')).length + 1⟩

theorem lineStartsFrom_append (offset : Nat) (front back : List Char) :
    lineStartsFrom offset (front ++ back) =
      lineStartsFrom offset front ++ lineStartsFrom (offset + Text.width front) back := by
  induction front generalizing offset with
  | nil => rfl
  | cons c front ih =>
    simp only [List.cons_append, lineStartsFrom, ih, Text.width, Nat.add_assoc]
    split <;> rfl

theorem length_lineStartsFrom (offset : Nat) (text : List Char) :
    (lineStartsFrom offset text).length = text.count '\n' := by
  induction text generalizing offset with
  | nil => rfl
  | cons c text ih =>
    rw [lineStartsFrom, List.count_cons]
    by_cases feed : c = '\n'
    · simp [feed, ih]
    · simp [feed, ih]

theorem lineStartsFrom_bounds {offset start : Nat} {text : List Char}
    (listed : start ∈ lineStartsFrom offset text) : offset < start ∧ start ≤ offset + Text.width text := by
  induction text generalizing offset with
  | nil => contradiction
  | cons c text ih =>
    have wide := c.utf8Size_pos
    rw [Text.width]
    rw [lineStartsFrom] at listed
    split at listed
    · rcases List.mem_cons.1 listed with rfl | later
      · omega
      · have bounds := ih later
        omega
    · have bounds := ih listed
      omega

theorem partitionPoint_eq {passes : Nat → Bool} {low high point : Nat}
    (passing : ∀ position, passes position = true ↔ position < point) (above : low ≤ point)
    (below : point ≤ high) : partitionPoint passes low high = point := by
  fun_induction partitionPoint passes low high with
  | case1 low high unsettled middle passed ih => exact ih ((passing middle).1 passed) below
  | case2 low high unsettled middle failed ih =>
    exact ih above (Nat.le_of_not_lt fun less => failed ((passing middle).2 less))
  | case3 low high settled => omega

namespace LineIndex

section

variable {index : LineIndex} {offset : Nat} {early late : List Nat}
  (split : index.starts.toList = early ++ late) (reached : ∀ start ∈ early, start ≤ offset)
  (ahead : ∀ start ∈ late, offset < start)
include split reached ahead

theorem startsBy_iff (line : Nat) : index.startsBy offset line = true ↔ line < early.length := by
  rw [startsBy, ← Array.getElem?_toList, split]
  by_cases before : line < early.length
  · have passes := reached _ (List.getElem_mem before)
    simp [List.getElem?_append_left before, before, passes]
  · rw [List.getElem?_append_right (Nat.le_of_not_lt before), Option.any_eq_true]
    refine ⟨fun ⟨start, found, passes⟩ => ?_, fun less => absurd less before⟩
    have behind := ahead start (List.mem_of_getElem? found)
    exact absurd (of_decide_eq_true passes) (Nat.not_le_of_lt behind)

/-- The line of an offset is the last of those that start at or before it. -/
theorem line_eq : index.line offset = early.length - 1 := by
  have size : index.starts.size = early.length + late.length := by
    rw [← Array.length_toList, split, List.length_append]
  rw [line, partitionPoint_eq (startsBy_iff split reached ahead) (Nat.zero_le _) (by omega)]

theorem lineStart?_eq (begun : early ≠ []) : index.lineStart? offset = early.getLast? := by
  have inside : early.length - 1 < early.length := Nat.sub_one_lt_of_lt (List.length_pos_iff.2 begun)
  rw [lineStart?, line_eq split reached ahead, ← Array.getElem?_toList, split,
    List.getElem?_append_left inside, List.getLast?_eq_getElem?]

end

section

variable {front back : List Char} {offset : Nat} (reached : Text.width front ≤ offset)
  (ahead : ∀ start ∈ lineStartsFrom (Text.width front) back, offset < start)
include reached ahead

theorem ofText_split : ∃ early late, (ofText (front ++ back)).starts.toList = early ++ late ∧
    early = 0 :: lineStartsFrom 0 front ∧ (∀ start ∈ early, start ≤ offset) ∧
    ∀ start ∈ late, offset < start := by
  refine ⟨_, lineStartsFrom (Text.width front) back, ?_, rfl, ?_, ahead⟩
  · rw [ofText, lineStartsFrom_append, Nat.zero_add, List.cons_append]
  · intro start listed
    rcases List.mem_cons.1 listed with rfl | later
    · exact Nat.zero_le _
    · have bounds := lineStartsFrom_bounds later
      omega

theorem line_ofText : (ofText (front ++ back)).line offset = front.count '\n' := by
  obtain ⟨early, late, split, rfl, before, behind⟩ := ofText_split reached ahead
  rw [line_eq split before behind, List.length_cons, Nat.add_sub_cancel, length_lineStartsFrom]

theorem lineStart?_ofText : (ofText (front ++ back)).lineStart? offset =
    some ((lineStartsFrom 0 front).getLast?.getD 0) := by
  obtain ⟨early, late, split, rfl, before, behind⟩ := ofText_split reached ahead
  rw [lineStart?_eq split before behind (List.cons_ne_nil _ _), List.getLast?_cons]

end

end LineIndex

theorem lastStart_eq (front : List Char) :
    ∃ before, front = before ++ (front.reverse.takeWhile (· != '\n')).reverse ∧
      (lineStartsFrom 0 front).getLast?.getD 0 = Text.width before := by
  induction front using List.reverseRecOn with
  | nil => exact ⟨[], rfl, rfl⟩
  | append_singleton front c ih =>
    obtain ⟨before, split, start⟩ := ih
    rw [List.reverse_append, List.reverse_singleton, List.singleton_append, lineStartsFrom_append]
    by_cases feed : c = '\n'
    · refine ⟨front ++ [c], by simp [feed], ?_⟩
      simp [feed, lineStartsFrom, Text.width_append, Text.width]
    · refine ⟨before, ?_, ?_⟩
      · rw [List.takeWhile_cons_of_pos (by simpa using feed), List.reverse_cons, ← List.append_assoc,
          ← split]
      · rw [← start, lineStartsFrom]
        simp [feed, lineStartsFrom]

/-- Only what comes before a position decides its line and its column. An offset
past the end stands for the end. -/
theorem locate_of_stop {front back : List Char} {offset : Nat}
    (stop : min offset (Text.width (front ++ back)) = Text.width front) :
    (LineIndex.ofText (front ++ back)).locate (front ++ back) offset = Location.after front := by
  obtain ⟨before, split, start⟩ := lastStart_eq front
  have reached : Text.width front ≤ offset := by omega
  have ahead : ∀ start ∈ lineStartsFrom (Text.width front) back, offset < start := by
    intro start listed
    have bounds := lineStartsFrom_bounds listed
    rw [Text.width_append] at stop
    omega
  have whole : Text.width front =
      Text.width before + Text.width (front.reverse.takeWhile (· != '\n')).reverse := by
    rw [← Text.width_append, ← split]
  have cut : Text.slice (Text.width before) (Text.width front) (front ++ back) =
      some (front.reverse.takeWhile (· != '\n')).reverse := by
    have part := Text.slice_append before (front.reverse.takeWhile (· != '\n')).reverse back
    rw [← whole, ← split] at part
    exact part
  simp only [LineIndex.locate, LineIndex.line_ofText reached ahead,
    LineIndex.lineStart?_ofText reached ahead, Option.getD_some, start, stop, cut,
    List.length_reverse, Location.after]

theorem locate_append (front back : List Char) :
    (LineIndex.ofText (front ++ back)).locate (front ++ back) (Text.width front) =
      Location.after front :=
  locate_of_stop (by rw [Text.width_append]; omega)

end VarDoc
