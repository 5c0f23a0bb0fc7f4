import Mathlib.Data.List.Lex
import VarDoc.Proofs.SpelledPaths

/-! The order of paths. Paths are compared component by component, and two of them
are either in order one way or the other, or have the same components. A list of
paths that grows by insertion stays in strict order, so that it holds each path
once and is settled by what it holds. -/

set_option autoImplicit false

namespace VarDoc

namespace Path

def Before (left right : Path) : Prop :=
  List.Lex (fun one other : Component => one.precedes other = true) left.components right.components

namespace Component

theorem precedes_iff {left right : Component} : left.precedes right = true ↔
    left.rank < right.rank ∨ left.rank = right.rank ∧ left.text < right.text := by
  simp [precedes]

theorem eq_of_rank {left right : Component} (sameRank : left.rank = right.rank)
    (sameText : left.text = right.text) : left = right := by
  cases left <;> cases right <;> simp_all [rank, text]

theorem precedes_trans {first second third : Component} (before : first.precedes second = true)
    (after : second.precedes third = true) : first.precedes third = true := by
  rw [precedes_iff] at *
  rcases before with lower | ⟨sameRank, lower⟩ <;> rcases after with higher | ⟨alsoSame, higher⟩
  · exact .inl (Nat.lt_trans lower higher)
  · exact .inl (alsoSame ▸ lower)
  · exact .inl (sameRank ▸ higher)
  · exact .inr ⟨sameRank.trans alsoSame, String.lt_trans lower higher⟩

instance : Std.Asymm fun left right : Component => left.precedes right = true where
  asymm left right before after := by
    have around := precedes_trans before after
    rw [precedes_iff] at around
    rcases around with lower | ⟨-, lower⟩
    · exact Nat.lt_irrefl _ lower
    · exact String.lt_irrefl _ lower

instance : Std.Trichotomous fun left right : Component => left.precedes right = true where
  trichotomous left right notBefore notAfter := by
    rw [precedes_iff, not_or, not_and] at notBefore notAfter
    have rank : left.rank = right.rank := Nat.le_antisymm (Nat.not_lt.1 notAfter.1) (Nat.not_lt.1 notBefore.1)
    exact eq_of_rank rank (String.le_antisymm (notAfter.2 rank.symm) (notBefore.2 rank))

end Component

theorem precedesBy_iff {left right : List Component} : precedesBy left right = true ↔
    List.Lex (fun one other : Component => one.precedes other = true) left right := by
  induction left generalizing right with
  | nil =>
    cases right with
    | nil => simp [precedesBy]
    | cons => simp [precedesBy]
  | cons one rest ih =>
    cases right with
    | nil => simp [precedesBy]
    | cons other more =>
      rw [precedesBy, List.cons_lex_cons_iff, Bool.or_eq_true, Bool.and_eq_true, beq_iff_eq, ih]

theorem Before.trans {first second third : Path} (before : first.Before second)
    (after : second.Before third) : first.Before third :=
  List.lex_trans Component.precedes_trans before after

theorem Before.asymm {left right : Path} (before : left.Before right) : ¬right.Before left :=
  (List.Lex.asymm _).asymm _ _ before

theorem Before.ne {left right : Path} (before : left.Before right) : left ≠ right := by
  rintro rfl
  exact before.asymm before

theorem same_of_not_before {left right : Path} (notBefore : ¬left.Before right)
    (notAfter : ¬right.Before left) : left.same right = true :=
  beq_iff_eq.2 ((List.Lex.trichotomous _).trichotomous _ _ notBefore notAfter)

theorem eq_of_ordered {paths others : List Path} (ordered : paths.Pairwise Before)
    (alsoOrdered : others.Pairwise Before) (members : ∀ path, path ∈ paths ↔ path ∈ others) :
    paths = others := by
  have distinct {list : List Path} (ordered : list.Pairwise Before) : list.Nodup :=
    ordered.imp Before.ne
  refine List.Perm.eq_of_pairwise ?_ ordered alsoOrdered
    ((List.perm_ext_iff_of_nodup (distinct ordered) (distinct alsoOrdered)).2 members)
  exact fun left right _ _ before after => absurd after before.asymm

def SpelledPlainly (path : Path) : Prop := path = spelled path.components

theorem SpelledPlainly.eq_of_same {path other : Path} (plain : path.SpelledPlainly)
    (alsoPlain : other.SpelledPlainly) (same : path.same other = true) : path = other := by
  rw [plain, alsoPlain, beq_iff_eq.1 same]

end Path

namespace Discovery

/-- Paths in strict order, each spelled plainly. -/
structure Collection (paths : List Path) : Prop where
  ordered : paths.Pairwise Path.Before
  plain : ∀ path ∈ paths, path.SpelledPlainly

/-- A path whose components are there already is left out; another is put between those that
come before it and those that come after. -/
theorem insertPath_cases (path : Path) {found : List Path} (ordered : found.Pairwise Path.Before) :
    (insertPath path found = found ∧ ∃ other ∈ found, path.same other = true) ∨
    ∃ front back, found = front ++ back ∧ insertPath path found = front ++ path :: back ∧
      (∀ other ∈ front, other.Before path) ∧ ∀ other ∈ back, path.Before other := by
  induction found with
  | nil => exact .inr ⟨[], [], rfl, rfl, by simp, by simp⟩
  | cons first rest ih =>
    obtain ⟨least, orderedRest⟩ := List.pairwise_cons.1 ordered
    unfold insertPath
    split
    next same => exact .inl ⟨rfl, first, List.mem_cons_self, same⟩
    next different =>
      split
      next precedes =>
        have before : path.Before first := Path.precedesBy_iff.1 precedes
        refine .inr ⟨[], first :: rest, rfl, rfl, by simp, ?_⟩
        exact List.forall_mem_cons.2 ⟨before, fun other member => before.trans (least other member)⟩
      next follows =>
        have after : first.Before path := by
          by_contra notAfter
          exact different (Path.same_of_not_before (mt Path.precedesBy_iff.2 follows) notAfter)
        rcases ih orderedRest with
          ⟨unchanged, other, member, same⟩ | ⟨front, back, split, inserted, lower, higher⟩
        · exact .inl ⟨by rw [unchanged], other, List.mem_cons_of_mem _ member, same⟩
        · refine .inr ⟨first :: front, back, ?_, ?_, List.forall_mem_cons.2 ⟨after, lower⟩, higher⟩
          · rw [split, List.cons_append]
          · rw [inserted, List.cons_append]

theorem Collection.insert {path : Path} {found : List Path} (collection : Collection found)
    (plain : path.SpelledPlainly) : Collection (insertPath path found) ∧
      ∀ other, other ∈ insertPath path found ↔ other ∈ found ∨ other = path := by
  rcases insertPath_cases path collection.ordered with
    ⟨unchanged, twin, member, same⟩ | ⟨front, back, rfl, inserted, lower, higher⟩
  · obtain rfl := plain.eq_of_same (collection.plain twin member) same
    rw [unchanged]
    exact ⟨collection, fun other => ⟨.inl, fun either => either.elim id fun twin => twin ▸ member⟩⟩
  · have members (other : Path) :
        other ∈ insertPath path (front ++ back) ↔ other ∈ front ++ back ∨ other = path := by
      simp only [inserted, List.mem_append, List.mem_cons]
      tauto
    refine ⟨⟨?_, fun other member => ?_⟩, members⟩
    · obtain ⟨orderedFront, orderedBack, across⟩ := List.pairwise_append.1 collection.ordered
      rw [inserted]
      refine List.pairwise_append.2 ⟨orderedFront, List.pairwise_cons.2 ⟨higher, orderedBack⟩, ?_⟩
      exact fun other member => List.forall_mem_cons.2 ⟨lower other member, across other member⟩
    · rcases (members other).1 member with before | rfl
      · exact collection.plain other before
      · exact plain

theorem Collection.insertAll {paths found : List Path} (collection : Collection found)
    (plain : ∀ path ∈ paths, path.SpelledPlainly) :
    Collection (paths.foldl (fun sorted path => insertPath path sorted) found) ∧
      ∀ other, other ∈ paths.foldl (fun sorted path => insertPath path sorted) found ↔
        other ∈ found ∨ other ∈ paths := by
  induction paths generalizing found with
  | nil => exact ⟨collection, fun other => by simp⟩
  | cons first rest ih =>
    obtain ⟨plainFirst, plainRest⟩ := List.forall_mem_cons.1 plain
    obtain ⟨inserted, members⟩ := collection.insert plainFirst
    obtain ⟨all, allMembers⟩ := ih inserted plainRest
    refine ⟨all, fun other => ?_⟩
    rw [List.foldl_cons, allMembers, members, List.mem_cons, or_assoc]

end Discovery

end VarDoc
