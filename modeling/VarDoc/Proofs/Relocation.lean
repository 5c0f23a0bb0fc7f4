import VarDoc.Proofs.Printing

/-! Forms at other places. Where tokens stand decides the spans of what is read
from them and nothing else: tokens that are put elsewhere derive the same forms
with their spans put elsewhere in the same way. A text that stands further behind
is lexed as the same items, moved by as many bytes. -/

set_option autoImplicit false

namespace VarDoc

/-- A change of places. What spans two places goes where it spans their new
places. -/
structure Relocation where
  place : Span → Span
  place_merge : ∀ left right : Span, place (left.merge right) = (place left).merge (place right)

namespace Relocation

def forward (distance : Nat) : Relocation where
  place span := ⟨span.start + distance, span.stop + distance⟩
  place_merge left right := by
    simp only [Span.merge, Span.mk.injEq]
    omega

def erasing : Relocation where
  place _ := .nowhere
  place_merge _ _ := rfl

end Relocation

def Token.relocated (move : Relocation) (token : Token) : Token :=
  ⟨token.kind, move.place token.span, token.lexeme⟩

def LexItem.relocated (move : Relocation) : LexItem → LexItem
  | .token lexed => .token (lexed.relocated move)
  | .fault error span => .fault error (move.place span)

namespace Form

mutual

def relocated (move : Relocation) : Form → Form
  | .atom leaf span metadata => .atom leaf (move.place span) (relocatedPairs move metadata)
  | .group shape items span metadata =>
    .group shape (relocatedAll move items) (move.place span) (relocatedPairs move metadata)
  | .map entries span metadata =>
    .map (relocatedPairs move entries) (move.place span) (relocatedPairs move metadata)
  | .marked mark inner span metadata =>
    .marked mark (inner.relocated move) (move.place span) (relocatedPairs move metadata)

def relocatedAll (move : Relocation) : List Form → List Form
  | [] => []
  | form :: rest => form.relocated move :: relocatedAll move rest

def relocatedPairs (move : Relocation) : List (Form × Form) → List (Form × Form)
  | [] => []
  | (key, value) :: rest => (key.relocated move, value.relocated move) :: relocatedPairs move rest

end

end Form

def relocatedEntry (move : Relocation) : Form × Form → Form × Form :=
  Prod.map (Form.relocated move) (Form.relocated move)

variable (move : Relocation)

namespace Form

theorem relocatedAll_eq (forms : List Form) :
    relocatedAll move forms = forms.map (relocated move) := by
  induction forms with
  | nil => rfl
  | cons form rest ih => rw [relocatedAll, ih, List.map_cons]

theorem relocatedPairs_eq (entries : List (Form × Form)) :
    relocatedPairs move entries = entries.map (relocatedEntry move) := by
  induction entries with
  | nil => rfl
  | cons entry rest ih => rw [relocatedPairs, ih, List.map_cons]; rfl

@[simp] theorem span_relocated (form : Form) : (form.relocated move).span = move.place form.span := by
  cases form <;> rfl

@[simp] theorem keyword?_relocated (form : Form) : (form.relocated move).keyword? = form.keyword? := by
  cases form with
  | atom leaf => cases leaf <;> rfl
  | group | map | marked => rfl

theorem withMetadata_relocated (form : Form) (start : Span) (entries : List (Form × Form)) :
    (form.relocated move).withMetadata (move.place start) (entries.map (relocatedEntry move)) =
      (form.withMetadata start entries).relocated move := by
  cases form <;>
    simp only [relocated, withMetadata, relocatedPairs_eq, List.map_append, move.place_merge]

end Form

theorem metadataEntries?_relocated (form : Form) :
    metadataEntries? (form.relocated move) =
      (metadataEntries? form).map (List.map (relocatedEntry move)) := by
  cases form with
  | atom leaf => cases leaf <;> rfl
  | map entries => exact congrArg some (Form.relocatedPairs_eq move entries)
  | group | marked => rfl

theorem qualifyKey_relocated (name : String) (key : Form) :
    qualifyKey name (key.relocated move) = (qualifyKey name key).relocated move := by
  cases key with
  | atom leaf =>
    cases leaf with
    | keyword keyword =>
      simp only [Form.relocated, qualifyKey]
      split <;> rfl
    | _ => rfl
  | group | map | marked => rfl

theorem selectBranch?_relocated (features : Features) (branches : List (Form × Form)) :
    selectBranch? features (branches.map (relocatedEntry move)) =
      (selectBranch? features branches).map (Form.relocated move) := by
  unfold selectBranch?
  simp [List.find?_map, Function.comp_def, relocatedEntry]

theorem splicedForms_relocated (form : Form) :
    splicedForms (form.relocated move) = (splicedForms form).map (Form.relocated move) := by
  cases form with
  | group shape items => cases shape <;> simp [Form.relocated, splicedForms, Form.relocatedAll_eq]
  | atom | map | marked => rfl

theorem entryForms_relocated (entries : List (Form × Form)) :
    (entryForms entries).map (Form.relocated move) = entryForms (entries.map (relocatedEntry move)) := by
  simp [entryForms, relocatedEntry, List.map_flatMap, List.flatMap_map]

theorem Describes.relocated {form : Form} {entries : List (Form × Form)}
    (describes : Describes form entries) :
    Describes (form.relocated move) (entries.map (relocatedEntry move)) := by
  rw [describes_iff] at describes ⊢
  rw [metadataEntries?_relocated, describes, Option.map_some]

theorem Selects.relocated {features : Features} {branches : List (Form × Form)}
    {selected : Option Form} (selects : Selects features branches selected) :
    Selects features (branches.map (relocatedEntry move)) (selected.map (Form.relocated move)) := by
  rw [selects_iff] at selects ⊢
  rw [selectBranch?_relocated, selects]

theorem Splices.relocated {selected : Option Form} {forms : List Form}
    (splices : Splices selected forms) :
    Splices (selected.map (Form.relocated move)) (forms.map (Form.relocated move)) := by
  rw [splices_iff] at splices ⊢
  subst splices
  cases selected with
  | none => rfl
  | some form => exact splicedForms_relocated move form

/-- Tokens at other places derive the forms at other places. -/
theorem Derives.relocated {features : Features} {phrase : Phrase} {tokens : List Token}
    {forms : List Form} (derives : Derives features phrase tokens forms) :
    Derives features phrase (tokens.map (Token.relocated move))
      (forms.map (Form.relocated move)) := by
  induction derives with
  | atom denotes => exact .atom denotes
  | group opens _ closes ih =>
    simp only [List.map_cons, List.map_append, List.map_nil, Form.relocated, move.place_merge,
      Form.relocatedAll_eq]
    exact .group opens ih closes
  | map opens _ closes ih =>
    simp only [List.map_cons, List.map_append, List.map_nil, Form.relocated, move.place_merge,
      Form.relocatedPairs_eq]
    exact .map opens (entryForms_relocated move _ ▸ ih) closes
  | marked marks _ ih =>
    simp only [List.map_cons, List.map_nil, Form.relocated, move.place_merge,
      ← Form.span_relocated] at ih ⊢
    exact .marked marks ih
  | @metadata _ token first second description form entries marks _ denotes _ described target =>
    simp only [List.map_cons, List.map_append, List.map_nil,
      ← Form.withMetadata_relocated] at described target ⊢
    exact .metadata marks described (denotes.relocated move) target
  | @namespacedMap _ token tokens entries span metadata marks _ ih =>
    let qualified (entry : Form × Form) : Form × Form := (qualifyKey token.spaceName entry.1, entry.2)
    have keys : (entries.map qualified).map (relocatedEntry move) =
        (entries.map (relocatedEntry move)).map qualified := by
      simp [qualified, relocatedEntry, qualifyKey_relocated]
    simp only [List.map_cons, List.map_nil, Form.relocated, move.place_merge,
      Form.relocatedPairs_eq] at ih ⊢
    change Derives features _ _ [.map ((entries.map qualified).map _) _ _]
    rw [keys]
    exact .namespacedMap marks ih
  | discard marks _ ih => exact .discard marks ih
  | conditional marks opens _ closes selects ih =>
    simp only [List.map_cons, List.map_append, List.map_nil, ← Option.toList_map]
    exact .conditional marks opens (entryForms_relocated move _ ▸ ih) closes (selects.relocated move)
  | splice marks opens _ closes selects spliced ih =>
    simp only [List.map_cons, List.map_append, List.map_nil]
    exact .splice marks opens (entryForms_relocated move _ ▸ ih) closes (selects.relocated move)
      (spliced.relocated move)
  | nil => exact .nil
  | cons _ _ head tail =>
    rw [List.map_append, List.map_append]
    exact .cons head tail
  | here _ ih => exact .here ih
  | later _ _ nothing ih =>
    rw [List.map_append]
    exact .later nothing ih

theorem lexedItems_relocated (tokens : List Token) :
    (lexedItems tokens).map (LexItem.relocated move) =
      lexedItems (tokens.map (Token.relocated move)) := by
  simp only [lexedItems, List.map_map]
  rfl

section Forward

variable (distance : Nat)

theorem lexStep_forward (offset : Nat) (first : Char) (rest : List Char) :
    lexStep (offset + distance) first rest =
      ((lexStep offset first rest).1.map (LexItem.relocated (.forward distance)),
        (lexStep offset first rest).2) := by
  have stop (width : Nat) : offset + distance + width = offset + width + distance :=
    Nat.add_right_comm offset distance width
  unfold lexStep
  cases Pattern.longest? (first :: rest) with
  | none => simp only [stop]; rfl
  | some choice =>
    simp only [stop]
    cases choice.1.kind? <;> rfl

theorem lexFrom_forward (covered offset : Nat) (text : List Char) :
    lexFrom covered (offset + distance) text =
      (lexFrom covered offset text).map (LexItem.relocated (.forward distance)) := by
  induction text generalizing covered offset with
  | nil => rfl
  | cons first rest ih =>
    have next : offset + distance + first.utf8Size = offset + first.utf8Size + distance :=
      Nat.add_right_comm offset distance first.utf8Size
    cases covered with
    | succ more => simp only [lexFrom, next, ih]
    | zero =>
      simp only [lexFrom, next, ih, lexStep_forward]
      cases (lexStep offset first rest).1 <;> rfl

end Forward

end VarDoc
