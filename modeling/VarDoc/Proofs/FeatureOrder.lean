import VarDoc.Proofs.ReaderSubstitution

/-! Which branch of a reader conditional is read. Of the branches whose features
are on it is the one that is written first. In which order the features were given
does not count, so that the branch of the most preferred feature is read only where
no other branch that is on stands before it. -/

set_option autoImplicit false

namespace VarDoc

variable {features : Features}

section SameFeatures

variable {others : Features}

theorem selects_eq_of_mem_iff (same : ∀ name, name ∈ others ↔ name ∈ features) :
    others.selects = features.selects := by
  funext name
  have contained : others.contains name = features.contains name := by
    rw [Bool.eq_iff_iff, List.contains_iff_mem, List.contains_iff_mem, same]
  rw [Features.selects, Features.selects, contained]

theorem shift_of_selects (same : others.selects = features.selects) :
    shift others = shift features := by
  have select : selectBranch? others = selectBranch? features := by
    funext branches
    simp only [selectBranch?, same]
  have closeBranches : closeBranches others = closeBranches features := by
    funext splicing start whole items below
    simp only [VarDoc.closeBranches, select]
  have closeFrame : closeFrame others = closeFrame features := by
    funext delimiter token frames
    unfold VarDoc.closeFrame
    rw [closeBranches]
  funext frames token
  unfold shift
  rw [closeFrame]

/-- Features count only by what they select. -/
theorem readFrom_of_selects (same : others.selects = features.selects) (size : Nat)
    (frames : List Frame) (items : List LexItem) :
    readFrom others size frames items = readFrom features size frames items := by
  induction items generalizing frames with
  | nil =>
    cases frames with
    | nil => rfl
    | cons frame => cases frame <;> rfl
  | cons item rest ih =>
    cases item with
    | fault error span => rw [readFrom_fault, readFrom_fault]
    | token token =>
      cases ready : awaitsList frames with
      | false =>
        rw [readFrom_token ready, readFrom_token ready, shift_of_selects same]
        rcases shift features frames token with fault | ⟨later⟩ | ⟨form⟩
        · rfl
        · exact ih later
        · rfl
      | true =>
        obtain ⟨splicing, start, below, rfl⟩ := awaitsList_eq_true ready
        rw [readFrom, readFrom, ih]

theorem readOutcomes_of_selects (same : others.selects = features.selects) (size : Nat)
    (items : List LexItem) :
    readOutcomes others size items = readOutcomes features size items := by
  have next (items : List LexItem) : nextForm? others size items = nextForm? features size items :=
    readFrom_of_selects same size [] items
  fun_induction readOutcomes features size items with
  | case1 items ended => exact readOutcomes_none ((next items).trans ended)
  | case2 items outcome rest read ih => rw [readOutcomes_some ((next items).trans read), ih]

end SameFeatures

theorem closeBranches_congr {branches fewer : List (Form × Form)} {selected : Option Form}
    (selects : Selects features branches selected) (fewerSelects : Selects features fewer selected)
    (splicing : Bool) (start whole part : Span) (frames : List Frame) :
    closeBranches features splicing start part (entryForms fewer) frames =
      closeBranches features splicing start whole (entryForms branches) frames := by
  simp only [closeBranches, pairs?_entryForms, selects_iff.1 selects, selects_iff.1 fewerSelects]

/-- The features in order of preference, `default` after all others. -/
def Features.preference (features : Features) : List String := features ++ ["default"]

theorem Features.selects_iff {name : String} :
    features.selects name = true ↔ name ∈ features.preference := by
  simp [Features.selects, Features.preference, or_comm]

def Branch.rank (branch : Branch features) : Nat := features.preference.idxOf branch.feature

namespace Conditional

/-- The branch of the most preferred feature that has one. -/
def preferred? (conditional : Conditional features) : Option (Branch features) :=
  features.preference.findSome? fun name =>
    conditional.branches.find? fun branch => branch.feature == name

def narrowed (conditional : Conditional features) : Conditional features where
  splicing := conditional.splicing
  mark := conditional.mark
  opening := conditional.opening
  branches := conditional.chosen?.toList
  closing := conditional.closing
  marks := conditional.marks
  opens := conditional.opens
  closes := conditional.closes

theorem chosen?_narrowed (conditional : Conditional features) :
    conditional.narrowed.chosen? = conditional.chosen? := by
  unfold narrowed chosen?
  cases found : conditional.branches.find? Branch.selected with
  | none => rfl
  | some branch => exact List.find?_cons_of_pos (List.find?_some found)

/-- In every context, also where it is a fault, a conditional reads as if the
chosen branch were its only one. -/
theorem narrowed_alike (conditional : Conditional features) (before behind : List LexItem) :
    ReadAlike features (before ++ lexedItems conditional.tokens ++ behind)
      (before ++ lexedItems conditional.narrowed.tokens ++ behind) := by
  have inside (size : Nat) {frames : List Frame} (ready : awaitsList frames = false) :
      outcomesFrom features size frames (lexedItems conditional.tokens ++ behind) =
        outcomesFrom features size frames (lexedItems conditional.narrowed.tokens ++ behind) := by
    have selects := conditional.narrowed.selects
    rw [chosen?_narrowed] at selects
    rw [outcomesFrom, outcomesFrom, conditional.readFrom_tokens ready,
      conditional.narrowed.readFrom_tokens ready]
    exact congrArg (fun state => outcomesAfter features size (resume features size behind state))
      (closeBranches_congr conditional.selects selects _ _ _ _ frames).symm
  refine .replace fun size frames tokens _ _ => ?_
  cases ready : awaitsList frames with
  | false => exact inside size ready
  | true =>
    obtain ⟨splicing, start, below, rfl⟩ := awaitsList_eq_true ready
    have other : conditional.mark.kind ≠ .opensGroup .list := by simp [conditional.marks]
    have again := @inside size [] rfl
    rw [outcomesFrom_nil, outcomesFrom_nil] at again
    exact (outcomesFrom_refused other _).trans
      ((congrArg _ again).trans (outcomesFrom_refused other _).symm)

theorem find?_feature {conditional : Conditional features} {branch : Branch features}
    (chosen : conditional.chosen? = some branch) :
    (conditional.branches.find? fun other => other.feature == branch.feature) = some branch := by
  obtain ⟨selected, front, back, whole, unselected⟩ := List.find?_eq_some_iff_append.1 chosen
  refine List.find?_eq_some_iff_append.2 ⟨by simp, front, back, whole, fun other member => ?_⟩
  have off := unselected other member
  simp only [Bool.not_eq_eq_eq_not, Bool.not_true, beq_eq_false_iff_ne] at off ⊢
  intro same
  rw [Branch.selected, same] at off
  exact absurd selected (by simp [Branch.selected, off])

theorem rank_le_of_preferred {conditional : Conditional features} {best : Branch features}
    (preferred : conditional.preferred? = some best) {other : Branch features}
    (member : other ∈ conditional.branches) : best.rank ≤ other.rank := by
  obtain ⟨front, name, back, order, found, earlier⟩ := List.findSome?_eq_some_iff.1 preferred
  have feature : best.feature = name := by simpa using List.find?_some found
  have without : other.feature ∉ front := fun inFront => by
    have missing := List.find?_eq_none.1 (earlier other.feature inFront) other member
    simp at missing
  have bestWithout : name ∉ front := fun inFront => by
    rw [earlier name inFront] at found
    cases found
  unfold Branch.rank
  rw [order, feature, List.idxOf_append, List.idxOf_append, if_neg without, if_neg bestWithout,
    List.idxOf_cons_self]
  omega

theorem preferred?_of_rank_le {conditional : Conditional features} {branch : Branch features}
    (chosen : conditional.chosen? = some branch)
    (least : ∀ other ∈ conditional.branches, other.selected = true → branch.rank ≤ other.rank) :
    conditional.preferred? = some branch := by
  have selected : branch.selected = true := List.find?_some chosen
  have listed : branch.feature ∈ features.preference := Features.selects_iff.1 selected
  obtain ⟨front, back, order, without⟩ := List.eq_append_cons_of_mem listed
  refine List.findSome?_eq_some_iff.2 ⟨front, branch.feature, back, order, find?_feature chosen, ?_⟩
  intro name inFront
  apply List.find?_eq_none.2
  intro other member same
  have feature : other.feature = name := by simpa using same
  have otherSelected : other.selected = true :=
    Features.selects_iff.2 (by rw [order, feature]; exact List.mem_append_left _ inFront)
  have ranked := least other member otherSelected
  unfold Branch.rank at ranked
  rw [order, feature, List.idxOf_append, List.idxOf_append, if_neg without, if_pos inFront] at ranked
  have := List.idxOf_lt_length_of_mem inFront
  omega

theorem preferred?_eq_none {conditional : Conditional features}
    (nothing : conditional.chosen? = none) : conditional.preferred? = none := by
  apply List.findSome?_eq_none_iff.2
  intro name listed
  apply List.find?_eq_none.2
  intro branch member same
  have feature : branch.feature = name := by simpa using same
  have off := List.find?_eq_none.1 nothing branch member
  exact off (Features.selects_iff.2 (feature ▸ listed))

end Conditional

/-- A conditional yields its first branch that is on, in a vector and, without the
other branches, everywhere. It is the preferred one just where no branch that is on
has a more preferred feature, and the order of the features changes nothing. -/
theorem first_written_branch_is_read (conditional : Conditional features) :
    (∀ size opening closing, opening.kind = .opensGroup .vector → closing.kind = .closes .square →
      readOutcomes features size (lexedItems (opening :: (conditional.tokens ++ [closing]))) =
        [.ok (.group .vector conditional.contents (opening.span.merge closing.span) [])]) ∧
    (∀ before behind, ReadAlike features (before ++ lexedItems conditional.tokens ++ behind)
      (before ++ lexedItems conditional.narrowed.tokens ++ behind)) ∧
    (conditional.chosen? = conditional.preferred? ↔
      ∀ branch, conditional.chosen? = some branch →
        ∀ other ∈ conditional.branches, other.selected = true → branch.rank ≤ other.rank) ∧
    ∀ others : Features, (∀ name, name ∈ others ↔ name ∈ features) →
      ∀ size items, readOutcomes others size items = readOutcomes features size items := by
  refine ⟨?_, conditional.narrowed_alike, ⟨?_, ?_⟩, ?_⟩
  · intro size opening closing opens closes
    exact readOutcomes_of_derives
      (Derives.single (.group opens (Derives.single conditional.derives_contents) closes))
  · intro same branch chosen other member _
    exact Conditional.rank_le_of_preferred (same.symm.trans chosen) member
  · intro least
    cases chosen : conditional.chosen? with
    | none => exact (Conditional.preferred?_eq_none chosen).symm
    | some branch => exact (Conditional.preferred?_of_rank_le chosen (least branch chosen)).symm
  · intro others same size items
    exact readOutcomes_of_selects (selects_eq_of_mem_iff same) size items

def cljsFirst : Conditional ["clj", "cljs"] where
  splicing := false
  mark := ⟨.conditional false, ⟨0, 2⟩, "#?"⟩
  opening := ⟨.opensGroup .list, ⟨2, 3⟩, "("⟩
  branches :=
    [⟨⟨.keyword, ⟨3, 8⟩, ":cljs"⟩, [⟨.number, ⟨9, 10⟩, "1"⟩], _, rfl, readsAlone_atom rfl⟩,
      ⟨⟨.keyword, ⟨11, 15⟩, ":clj"⟩, [⟨.number, ⟨16, 17⟩, "2"⟩], _, rfl, readsAlone_atom rfl⟩]
  closing := ⟨.closes .paren, ⟨17, 18⟩, ")"⟩
  marks := rfl
  opens := rfl
  closes := rfl

/-- The first branch is read from a vector, with the features in either order, and
the other one is preferred. -/
theorem first_branch_read_with_features_in_either_order :
    let square : Token := ⟨.opensGroup .vector, .nowhere, "["⟩
    let closing : Token := ⟨.closes .square, .nowhere, "]"⟩
    let items := lexedItems (square :: (cljsFirst.tokens ++ [closing]))
    let read := [Except.ok (Form.group .vector [.atom (.number "1") ⟨9, 10⟩ []] .nowhere [])]
    readOutcomes ["clj", "cljs"] 20 items = read ∧ readOutcomes ["cljs", "clj"] 20 items = read ∧
      cljsFirst.chosen? ≠ cljsFirst.preferred? := by
  intro square closing items read
  obtain ⟨inVector, -, preferred, order⟩ := first_written_branch_is_read cljsFirst
  have contents : cljsFirst.contents = [.atom (.number "1") ⟨9, 10⟩ []] := by
    have chosen : cljsFirst.chosen? = some _ :=
      List.find?_cons_of_pos (by decide +kernel)
    unfold Conditional.contents
    rw [chosen]
    rfl
  have first : readOutcomes ["clj", "cljs"] 20 items = read := by
    rw [inVector 20 square closing rfl rfl, contents]
    rfl
  refine ⟨first, (order ["cljs", "clj"] (by simp [or_comm]) 20 items).trans first, fun same => ?_⟩
  have ranks := preferred.1 same _ (List.find?_cons_of_pos (by decide +kernel)) _
    (List.mem_cons_of_mem _ List.mem_cons_self) (by decide +kernel)
  exact absurd ranks (by decide +kernel)

/-- The features are given in the order `clj`, `cljs`, and the branch of `cljs` is
read. -/
theorem less_preferred_branch_read :
    lex "#?(:cljs 1 :clj 2)".toList = lexedItems cljsFirst.tokens ∧
      cljsFirst.preferred?.map Branch.feature = some "clj" ∧
      cljsFirst.preferred?.map (·.form.render) = some "2" ∧
      (readAll ["clj", "cljs"] "#?(:cljs 1 :clj 2)").toOption.map (List.map Form.render) =
        some ["1"] := by
  refine ⟨?_, ?_, ?_, ?_⟩ <;> decide +kernel

end VarDoc
