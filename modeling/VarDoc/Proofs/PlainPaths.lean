import VarDoc.Proofs.Paths

/-! Plain paths: relative ones whose components are all names. Such a path
leads nowhere but to the entry that its names spell out from the working
directory, so that two of them lead to the same entry just when they have the
same components. -/

set_option autoImplicit false

namespace VarDoc

namespace Path

def Component.isName : Component → Bool
  | .name _ => true
  | _ => false

theorem Component.eq_name {component : Component} (named : component.isName = true) :
    component = .name component.text := by
  cases component <;> first | rfl | contradiction

/-- A relative path without dots for components. -/
def Plain (path : Path) : Prop := ∀ component ∈ path.components, component.isName = true

instance (path : Path) : Decidable path.Plain :=
  inferInstanceAs (Decidable (∀ component ∈ path.components, component.isName = true))

def names (path : Path) : List String := path.components.map Component.text

theorem Plain.components_eq {path : Path} (plain : path.Plain) :
    path.components = path.names.map .name := by
  rw [names, List.map_map]
  refine (List.map_id _).symm.trans (List.map_congr_left fun component member => ?_)
  exact Component.eq_name (plain component member)

theorem component?_isName_iff {part : List Char} :
    (∀ component ∈ component? part, component.isName = true) ↔ part ≠ ['.', '.'] := by
  unfold component?
  split
  next blank =>
    rcases blank with rfl | rfl <;> simp
  next =>
    split
    next up => simp [up, Component.isName]
    next other => simp [other, Component.isName]

theorem plain_iff {path : Path} {first : List Char} {rest : List (List Char)}
    (split : path.parts = first :: rest) :
    path.Plain ↔ path.isAbsolute = false ∧ first ≠ ['.'] ∧ ∀ part ∈ first :: rest, part ≠ ['.', '.'] := by
  have later : (∀ component ∈ rest.filterMap component?, component.isName = true) ↔
      ∀ part ∈ rest, part ≠ ['.', '.'] := by
    simp only [List.mem_filterMap, ← component?_isName_iff, Option.mem_def]
    exact ⟨fun all part member component made => all component ⟨part, member, made⟩,
      fun all component ⟨part, member, made⟩ => all part member component made⟩
  rw [Plain, components_of_parts split, List.forall_mem_append, later, List.forall_mem_cons,
    ← Bool.not_eq_true, isAbsolute_iff split, leading]
  by_cases empty : first = []
  · cases rest <;> simp [empty, Component.isName]
  · by_cases here : first = ['.']
    · simp [here, Component.isName]
    · simp only [if_neg empty, if_neg here, Option.mem_toList, ← component?_isName_iff]
      simp [empty, here]

theorem Plain.isAbsolute {path : Path} (plain : path.Plain) : path.isAbsolute = false := by
  obtain ⟨first, rest, split⟩ := path.exists_parts
  exact ((plain_iff split).1 plain).1

theorem foldl_lead_names (names trail : List String) :
    (names.map .name).foldl Component.lead trail = names.reverse ++ trail := by
  induction names generalizing trail with
  | nil => rfl
  | cons name rest ih => simp [Component.lead, ih]

theorem Plain.join {base path : Path} (plainBase : base.Plain) (plain : path.Plain) :
    (base.join path).Plain := by
  obtain ⟨first, rest, split⟩ := path.exists_parts
  obtain ⟨relative, notHere, noneUp⟩ := (plain_iff split).1 plain
  obtain ⟨baseFirst, baseRest, baseSplit⟩ := base.exists_parts
  obtain ⟨baseRelative, baseNotHere, baseNoneUp⟩ := (plain_iff baseSplit).1 plainBase
  have joinRelative : (base.join path).isAbsolute = false :=
    (isAbsolute_join base relative).trans baseRelative
  obtain ⟨front, joined, parts⟩ := base.parts_join relative
  cases front with
  | nil =>
    rw [List.nil_append, split] at joined
    exact (plain_iff joined).2 ⟨joinRelative, notHere, noneUp⟩
  | cons part front =>
    have inBase : ∀ other ∈ part :: front, other ∈ baseFirst :: baseRest := by
      rw [← baseSplit]
      rcases parts with parts | parts <;> rw [parts] <;> simp +contextual
    have same : part = baseFirst := by
      rcases parts with parts | parts
      all_goals
        rw [baseSplit] at parts
        exact (List.cons.inj parts).1.symm
    rw [split, List.cons_append] at joined
    refine (plain_iff joined).2 ⟨joinRelative, same ▸ baseNotHere, ?_⟩
    rw [← List.cons_append]
    intro other member
    rcases List.mem_append.1 member with before | after
    · exact baseNoneUp other (inBase other before)
    · exact noneUp other after

theorem Plain.parent {path parent : Path} (plain : path.Plain)
    (isParent : path.parent? = some parent) : parent.Plain := by
  obtain ⟨first, rest, split⟩ := path.exists_parts
  obtain ⟨relative, notHere, noneUp⟩ := (plain_iff split).1 plain
  rw [← Bool.not_eq_true, isAbsolute_iff split] at relative
  unfold parent? at isParent
  simp only [split] at isParent
  split at isParent
  next last before shape =>
    have kept : ∀ part ∈ (before.dropWhile (component? · |>.isNone)).reverse, part ∈ rest := by
      intro part member
      have inBefore := (List.dropWhile_sublist _).subset (List.mem_reverse.1 member)
      have inRest : part ∈ rest.reverse :=
        (List.dropWhile_sublist _).subset (shape ▸ List.mem_cons_of_mem _ inBefore)
      exact List.mem_reverse.1 inRest
    have more : rest ≠ [] := by
      rintro rfl
      contradiction
    have nonempty : first ≠ [] := fun empty => relative ⟨empty, more⟩
    rw [if_neg (fun both => nonempty both.1)] at isParent
    cases isParent
    have parts : (Path.mk (String.ofList (joinSlashes
        (first :: (before.dropWhile (component? · |>.isNone)).reverse)))).parts =
        first :: (before.dropWhile (component? · |>.isNone)).reverse := by
      rw [Path.parts, String.toList_ofList]
      refine splitSlashes_joinSlashes (List.cons_ne_nil _ _) fun part member => ?_
      apply unslashed_of_mem_splitSlashes
      change part ∈ path.parts
      rw [split]
      exact List.cons_subset_cons _ kept member
    refine (plain_iff parts).2 ⟨?_, notHere, ?_⟩
    · rw [← Bool.not_eq_true, isAbsolute_iff parts]
      exact fun both => nonempty both.1
    · exact fun part member => noneUp part (List.cons_subset_cons _ kept member)
  next =>
    split at isParent
    · contradiction
    · cases isParent
      decide

theorem Plain.extend {text ending : String} (plain : Path.Plain ⟨text⟩)
    (unslashed : '/' ∉ ending.toList) (long : 2 < ending.toList.length) :
    Path.Plain ⟨text ++ ending⟩ := by
  obtain ⟨front, last, split, longer⟩ := splitSlashes_append_unslashed text.toList unslashed
  rw [← String.toList_append] at longer
  have named (dots : List Char) (short : dots.length ≤ 2) : last ++ ending.toList ≠ dots := by
    rintro rfl
    rw [List.length_append] at short
    omega
  cases front with
  | nil =>
    refine (plain_iff longer).2 ⟨?_, named _ (by decide), ?_⟩
    · rw [← Bool.not_eq_true, isAbsolute_iff longer]
      exact fun both => both.2 rfl
    · exact List.forall_mem_singleton.2 (named _ (by decide))
  | cons first front =>
    rw [List.cons_append] at split longer
    obtain ⟨relative, notHere, noneUp⟩ := (plain_iff split).1 plain
    refine (plain_iff longer).2 ⟨?_, notHere, ?_⟩
    · rw [← Bool.not_eq_true, isAbsolute_iff split] at relative
      rw [← Bool.not_eq_true, isAbsolute_iff longer]
      exact fun both => relative ⟨both.1, by simp⟩
    · intro part member
      rw [← List.cons_append] at member
      rcases List.mem_append.1 member with before | isLast
      · exact noneUp part (by rw [← List.cons_append]; exact List.mem_append_left _ before)
      · rw [List.mem_singleton.1 isLast]
        exact named _ (by decide)

end Path

namespace FileTree

variable {tree : FileTree}

/-- A plain path leads to the entry that its names spell out. -/
theorem resolve_plain {path : Path} (plain : path.Plain) {entry : List String}
    (resolved : tree.resolve path = .ok entry) : entry = tree.workingDirectory ++ path.names := by
  obtain ⟨-, walked⟩ := resolve_eq_ok_iff.1 resolved
  have leads := walk_components walked
  rw [startOf, plain.isAbsolute, plain.components_eq, Path.foldl_lead_names] at leads
  simpa using congrArg List.reverse leads

end FileTree

end VarDoc
