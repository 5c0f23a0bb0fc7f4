import VarDoc.Dict

/-! Laws of maps from text. What a map holds is what was written into it; a
list of entries that is already in order is the map that it makes. -/

set_option autoImplicit false

namespace VarDoc

variable {α β : Type}

instance (entries : List (String × α)) : Decidable (Ordered entries) :=
  inferInstanceAs (Decidable (entries.Pairwise _))

theorem mem_sortEntries {entry : String × α} {entries : List (String × α)}
    (member : entry ∈ sortEntries entries) : entry ∈ entries := by
  have passed (sorted : List (String × α))
      (found : entry ∈ entries.foldl (fun sorted new => insertEntry new.1 new.2 sorted) sorted) :
      entry ∈ sorted ∨ entry ∈ entries := by
    clear member
    induction entries generalizing sorted with
    | nil => exact .inl found
    | cons first rest ih =>
      rcases ih _ found with earlier | later
      · rcases mem_insertEntry earlier with same | before
        · exact .inr (same ▸ List.mem_cons_self)
        · exact .inl before
      · exact .inr (List.mem_cons_of_mem _ later)
  exact (passed [] member).resolve_left List.not_mem_nil

theorem ordered_sortEntries (entries : List (String × α)) : Ordered (sortEntries entries) := by
  have passed (sorted : List (String × α)) (ordered : Ordered sorted) :
      Ordered (entries.foldl (fun sorted new => insertEntry new.1 new.2 sorted) sorted) := by
    induction entries generalizing sorted with
    | nil => exact ordered
    | cons first rest ih => exact ih _ (ordered_insertEntry first.1 first.2 ordered)
  exact passed [] .nil

theorem lookupEntry_cons (key : String) (entry : String × α) (rest : List (String × α)) :
    lookupEntry key (entry :: rest) = if entry.1 = key then some entry.2 else lookupEntry key rest := by
  unfold lookupEntry
  by_cases same : entry.1 = key
  · rw [List.find?_cons_of_pos (by simpa using same), if_pos same, Option.map_some]
  · rw [List.find?_cons_of_neg (by simpa using same), if_neg same]

theorem lookupEntry_insertEntry_self (key : String) (value : α) (entries : List (String × α)) :
    lookupEntry key (insertEntry key value entries) = some value := by
  induction entries with
  | nil => simp [insertEntry, lookupEntry]
  | cons entry rest ih =>
    rw [insertEntry]
    split
    · rw [lookupEntry_cons, if_pos rfl]
    · split
      · rw [lookupEntry_cons, if_pos rfl]
      next _ different => rw [lookupEntry_cons, if_neg (Ne.symm different), ih]

theorem lookupEntry_insertEntry_of_ne {key other : String} (value : α)
    (entries : List (String × α)) (different : other ≠ key) :
    lookupEntry other (insertEntry key value entries) = lookupEntry other entries := by
  induction entries with
  | nil => rw [insertEntry, lookupEntry_cons, if_neg (Ne.symm different)]
  | cons entry rest ih =>
    rw [insertEntry]
    split
    · rw [lookupEntry_cons, if_neg (Ne.symm different)]
    · split
      next _ same =>
        rw [lookupEntry_cons, if_neg (Ne.symm different), lookupEntry_cons,
          if_neg (same ▸ Ne.symm different)]
      next => rw [lookupEntry_cons, lookupEntry_cons, ih]

theorem lookupEntry_map (change : α → β) (key : String) (entries : List (String × α)) :
    lookupEntry key (entries.map fun entry => (entry.1, change entry.2)) =
      (lookupEntry key entries).map change := by
  induction entries with
  | nil => rfl
  | cons entry rest ih =>
    rw [List.map_cons, lookupEntry_cons, lookupEntry_cons, ih]
    split <;> rfl

theorem mem_of_lookupEntry {key : String} {value : α} {entries : List (String × α)}
    (found : lookupEntry key entries = some value) : (key, value) ∈ entries := by
  obtain ⟨entry, first, rfl⟩ := Option.map_eq_some_iff.1 found
  have same : entry.1 = key := by simpa using List.find?_some first
  exact same ▸ List.mem_of_find?_eq_some first

theorem lookupEntry_of_mem {key : String} {value : α} {entries : List (String × α)}
    (distinct : (entries.map Prod.fst).Nodup) (member : (key, value) ∈ entries) :
    lookupEntry key entries = some value := by
  induction entries with
  | nil => cases member
  | cons entry rest ih =>
    rw [List.map_cons, List.nodup_cons] at distinct
    rw [lookupEntry_cons]
    rcases List.mem_cons.1 member with rfl | later
    · exact if_pos rfl
    · rw [if_neg, ih distinct.2 later]
      intro same
      exact distinct.1 (same ▸ List.mem_map_of_mem later)

theorem lookupEntry_eq_none_iff {key : String} {entries : List (String × α)} :
    lookupEntry key entries = none ↔ key ∉ entries.map Prod.fst := by
  induction entries with
  | nil => exact iff_of_true rfl List.not_mem_nil
  | cons entry rest ih =>
    rw [lookupEntry_cons, List.map_cons, List.mem_cons, not_or, ← ih]
    split
    next same => exact iff_of_false nofun fun absent => absent.1 same.symm
    next differs => rw [and_iff_right (Ne.symm differs)]

theorem lookupEntry_append (key : String) (first second : List (String × α)) :
    lookupEntry key (first ++ second) = (lookupEntry key first).or (lookupEntry key second) := by
  rw [lookupEntry, List.find?_append, Option.map_or]
  rfl

theorem lookupEntry_reverse_eq_some_iff {key : String} {value : α} {entries : List (String × α)} :
    lookupEntry key entries.reverse = some value ↔
      ∃ before after, entries = before ++ (key, value) :: after ∧ ∀ entry ∈ after, entry.1 ≠ key := by
  unfold lookupEntry
  rw [Option.map_eq_some_iff]
  constructor
  · rintro ⟨entry, found, rfl⟩
    obtain ⟨hasKey, after, before, split, passed⟩ := List.find?_eq_some_iff_append.1 found
    obtain rfl := beq_iff_eq.1 hasKey
    refine ⟨before.reverse, after.reverse, ?_, ?_⟩
    · simpa using congrArg List.reverse split
    · intro later member
      simpa using passed later (List.mem_reverse.1 member)
  · rintro ⟨before, after, rfl, passed⟩
    refine ⟨(key, value), List.find?_eq_some_iff_append.2
      ⟨beq_self_eq_true key, after.reverse, before.reverse, by simp, ?_⟩, rfl⟩
    intro later member
    simpa using passed later (List.mem_reverse.1 member)

def present (entries : List (String × Option α)) : List (String × α) :=
  entries.filterMap fun entry => entry.2.map (entry.1, ·)

theorem keys_present (entries : List (String × Option α)) :
    ((present entries).map Prod.fst).Sublist (entries.map Prod.fst) := by
  induction entries with
  | nil => exact .slnil
  | cons entry rest ih =>
    obtain ⟨key, value⟩ := entry
    cases value with
    | none => exact ih.cons _
    | some value => exact ih.cons_cons _

theorem lookupEntry_present {entries : List (String × Option α)}
    (distinct : (entries.map Prod.fst).Nodup) (key : String) :
    lookupEntry key (present entries) = (lookupEntry key entries).join := by
  induction entries with
  | nil => rfl
  | cons entry rest ih =>
    obtain ⟨first, value⟩ := entry
    simp only [List.map_cons, List.nodup_cons] at distinct
    have later := ih distinct.2
    rw [lookupEntry_cons]
    cases value with
    | none =>
      change lookupEntry key (present rest) = _
      split
      next same =>
        obtain rfl : first = key := same
        refine lookupEntry_eq_none_iff.2 ?_
        intro member
        exact distinct.1 ((keys_present rest).subset member)
      next => exact later
    | some value =>
      change lookupEntry key ((first, value) :: present rest) = _
      rw [lookupEntry_cons]
      split
      · rfl
      · exact later

theorem insertEntry_last {key : String} (value : α) {entries : List (String × α)}
    (after : ∀ entry ∈ entries, entry.1 < key) :
    insertEntry key value entries = entries ++ [(key, value)] := by
  induction entries with
  | nil => rfl
  | cons first rest ih =>
    have before : first.1 < key := after first List.mem_cons_self
    have later := ih fun entry member => after entry (List.mem_cons_of_mem _ member)
    have notSame : key ≠ first.1 := by
      intro same
      exact String.lt_irrefl _ (same ▸ before)
    rw [insertEntry, if_neg (String.lt_asymm before), if_neg notSame, later, List.cons_append]

theorem sortEntries_of_ordered {entries : List (String × α)} (ordered : Ordered entries) :
    sortEntries entries = entries := by
  -- What is inserted so far comes before all that is still to be inserted.
  have passed (sorted rest : List (String × α)) (all : Ordered (sorted ++ rest)) :
      rest.foldl (fun sorted entry => insertEntry entry.1 entry.2 sorted) sorted = sorted ++ rest := by
    induction rest generalizing sorted with
    | nil => rw [List.append_nil, List.foldl_nil]
    | cons entry rest ih =>
      have before : ∀ earlier ∈ sorted, earlier.1 < entry.1 :=
        fun earlier member => (List.pairwise_append.1 all).2.2 earlier member entry List.mem_cons_self
      rw [List.foldl_cons, insertEntry_last _ before, ih _ (by simpa using all), List.append_assoc, List.singleton_append]
  exact passed [] entries ordered

theorem ordered_of_keys {entries : List (String × α)} {others : List (String × β)}
    (keys : others.map Prod.fst = entries.map Prod.fst) (ordered : Ordered entries) :
    Ordered others := by
  have byKey : (entries.map Prod.fst).Pairwise (· < ·) := List.pairwise_map.2 ordered
  rw [← keys] at byKey
  exact List.pairwise_map.1 byKey

namespace Dict

theorem entries_ofList (entries : List (String × α)) :
    (ofList entries).entries = sortEntries entries := by
  have passed (dict : Dict α) :
      (entries.foldl (fun dict entry => dict.insert entry.1 entry.2) dict).entries =
        entries.foldl (fun sorted entry => insertEntry entry.1 entry.2 sorted) dict.entries := by
    induction entries generalizing dict with
    | nil => rfl
    | cons entry rest ih => exact ih _
  exact passed empty

theorem ofList_of_ordered {entries : List (String × α)} (ordered : Ordered entries) :
    ofList entries = ⟨entries, ordered⟩ := by
  have same := entries_ofList entries
  rw [sortEntries_of_ordered ordered] at same
  cases made : ofList entries with
  | mk found foundOrdered =>
    rw [made] at same
    subst same
    rfl

def map (change : α → β) (dict : Dict α) : Dict β where
  entries := dict.entries.map fun entry => (entry.1, change entry.2)
  ordered := ordered_of_keys (by simp) dict.ordered

theorem ofList_map (change : α → β) (dict : Dict α) :
    ofList (dict.entries.map fun entry => (entry.1, change entry.2)) = dict.map change :=
  ofList_of_ordered (dict.map change).ordered

def All (property : String → α → Prop) (dict : Dict α) : Prop :=
  ∀ entry ∈ dict.entries, property entry.1 entry.2

variable {property : String → α → Prop} {dict : Dict α}

theorem map_eq_self {change : α → α} (same : dict.All fun _ value => change value = value) :
    dict.map change = dict := by
  have each : ∀ entry ∈ dict.entries, (entry.1, change entry.2) = id entry :=
    fun entry member => by rw [same entry member]; rfl
  have entries := (List.map_congr_left each).trans (List.map_id _)
  cases dict with
  | mk entries ordered => simpa only [map, mk.injEq] using entries

theorem All.empty : (∅ : Dict α).All property := fun _ member => absurd member List.not_mem_nil

theorem All.insert {key : String} {value : α} (all : dict.All property) (new : property key value) :
    (dict.insert key value).All property := by
  intro entry member
  rcases mem_insertEntry member with same | earlier
  · exact same ▸ new
  · exact all entry earlier

theorem All.insertAll {entries : List (String × α)} (all : dict.All property)
    (new : ∀ entry ∈ entries, property entry.1 entry.2) : (dict.insertAll entries).All property := by
  induction entries generalizing dict with
  | nil => exact all
  | cons first rest ih =>
    exact ih (all.insert (new first List.mem_cons_self))
      (fun entry member => new entry (List.mem_cons_of_mem _ member))

theorem All.ofList {entries : List (String × α)}
    (new : ∀ entry ∈ entries, property entry.1 entry.2) : (Dict.ofList entries).All property :=
  All.insertAll All.empty new

theorem All.mem_values {value : α} {test : α → Prop} (all : dict.All fun _ => test)
    (member : value ∈ dict.values) : test value := by
  obtain ⟨entry, found, rfl⟩ := List.mem_map.1 member
  exact all entry found

theorem mem_entries_iff {key : String} {value : α} :
    (key, value) ∈ dict.entries ↔ dict.get? key = some value := by
  refine ⟨fun member => ?_, mem_of_lookupEntry⟩
  obtain ⟨entries, ordered⟩ := dict
  change lookupEntry key entries = some value
  induction entries with
  | nil => exact absurd member List.not_mem_nil
  | cons entry rest ih =>
    obtain ⟨least, rest_ordered⟩ := List.pairwise_cons.1 ordered
    rw [lookupEntry_cons]
    rcases List.mem_cons.1 member with rfl | later
    · exact if_pos rfl
    · have before : entry.1 < key := least (key, value) later
      have differs : entry.1 ≠ key := fun same => String.lt_irrefl key (same ▸ before)
      rw [if_neg differs]
      exact ih rest_ordered later

theorem mem_keys_iff {key : String} : key ∈ dict.keys ↔ ∃ value, dict.get? key = some value := by
  simp [keys, ← mem_entries_iff]

theorem get?_filterMap (change : String → α → Option β) (dict : Dict α) (key : String) :
    (dict.filterMap change).get? key = (dict.get? key).bind (change key) := by
  refine Option.ext fun value => ?_
  rw [← mem_entries_iff, Option.bind_eq_some_iff]
  constructor
  · intro member
    obtain ⟨entry, listed, made⟩ := List.mem_filterMap.1 member
    obtain ⟨changed, becomes, same⟩ := Option.map_eq_some_iff.1 made
    obtain ⟨rfl, rfl⟩ := Prod.mk.inj same
    exact ⟨entry.2, mem_entries_iff.1 listed, becomes⟩
  · rintro ⟨old, found, becomes⟩
    exact List.mem_filterMap.2 ⟨(key, old), mem_entries_iff.2 found, by simp [becomes]⟩

theorem get?_insert (dict : Dict α) (key other : String) (value : α) :
    (dict.insert key value).get? other = if key = other then some value else dict.get? other := by
  by_cases same : key = other
  · rw [if_pos same, ← same]
    exact lookupEntry_insertEntry_self key value dict.entries
  · rw [if_neg same]
    exact lookupEntry_insertEntry_of_ne value dict.entries (Ne.symm same)

theorem insertAll_cons (dict : Dict α) (entry : String × α) (entries : List (String × α)) :
    dict.insertAll (entry :: entries) = (dict.insert entry.1 entry.2).insertAll entries := rfl

theorem insertAll_append (dict : Dict α) (first second : List (String × α)) :
    dict.insertAll (first ++ second) = (dict.insertAll first).insertAll second := List.foldl_append

/-- The last of the entries with a key wins over the others and over the map. -/
theorem get?_insertAll (dict : Dict α) (entries : List (String × α)) (key : String) :
    (dict.insertAll entries).get? key = (lookupEntry key entries.reverse).or (dict.get? key) := by
  induction entries generalizing dict with
  | nil => rfl
  | cons entry rest ih =>
    rw [insertAll_cons, ih, get?_insert, List.reverse_cons, lookupEntry, lookupEntry,
      List.find?_append]
    cases rest.reverse.find? (·.1 == key) with
    | some later => rfl
    | none => by_cases same : entry.1 = key <;> simp [same]

theorem get?_ofList (entries : List (String × α)) (key : String) :
    (ofList entries).get? key = lookupEntry key entries.reverse := by
  have empty : (∅ : Dict α).get? key = none := rfl
  change (insertAll ∅ entries).get? key = _
  rw [get?_insertAll, empty, Option.or_none]

theorem get?_written_iff {ι : Type} {written? : ι → Option (String × α)} {items : List ι}
    {key : String} {value : α} :
    ((∅ : Dict α).insertAll (items.filterMap written?)).get? key = some value ↔
      ∃ before item after, items = before ++ item :: after ∧ written? item = some (key, value) ∧
        ∀ later ∈ after, ∀ other, written? later ≠ some (key, other) := by
  have empty : (∅ : Dict α).get? key = none := rfl
  rw [get?_insertAll, empty, Option.or_none, lookupEntry_reverse_eq_some_iff]
  constructor
  · rintro ⟨earlier, others, written, passed⟩
    obtain ⟨before, rest, rfl, -, rest_writes⟩ := List.filterMap_eq_append_iff.1 written
    obtain ⟨silent, item, after, rfl, -, writes, rfl⟩ := List.filterMap_eq_cons_iff.1 rest_writes
    refine ⟨before ++ silent, item, after, by simp, writes, ?_⟩
    intro later member other writesToo
    exact passed (key, other) (List.mem_filterMap.2 ⟨later, member, writesToo⟩) rfl
  · rintro ⟨before, item, after, rfl, writes, passed⟩
    refine ⟨before.filterMap written?, after.filterMap written?, by simp [writes], ?_⟩
    rintro ⟨_, other⟩ member rfl
    obtain ⟨later, found, writesToo⟩ := List.mem_filterMap.1 member
    exact passed later found other writesToo

theorem lookupEntry_of_lt {key : String} {entries : List (String × α)}
    (before : ∀ entry ∈ entries, key < entry.1) : lookupEntry key entries = none := by
  refine lookupEntry_eq_none_iff.2 fun member => ?_
  obtain ⟨entry, found, rfl⟩ := List.mem_map.1 member
  exact String.lt_irrefl _ (before entry found)

/-- The least key is found only among entries that start with it. -/
theorem not_lt_of_lookup {entry other : String × α} {rest : List (String × α)}
    (ordered : Ordered (other :: rest)) {value : α}
    (found : lookupEntry entry.1 (other :: rest) = some value) : ¬ entry.1 < other.1 := by
  intro before
  have least := (List.pairwise_cons.1 ordered).1
  have missing : lookupEntry entry.1 (other :: rest) = none :=
    lookupEntry_of_lt (List.forall_mem_cons.2
      ⟨before, fun later member => String.lt_trans before (least later member)⟩)
  rw [missing] at found
  contradiction

theorem entries_eq_of_lookup {entries others : List (String × α)} (ordered : Ordered entries)
    (orderedOthers : Ordered others)
    (same : ∀ key, lookupEntry key entries = lookupEntry key others) : entries = others := by
  have foundFirst (entry : String × α) (rest : List (String × α)) :
      lookupEntry entry.1 (entry :: rest) = some entry.2 := by rw [lookupEntry_cons, if_pos rfl]
  induction entries generalizing others with
  | nil =>
    cases others with
    | nil => rfl
    | cons other rest => cases (same other.1).trans (foundFirst other rest)
  | cons entry rest ih =>
    cases others with
    | nil => cases (foundFirst entry rest).symm.trans (same entry.1)
    | cons other rest' =>
      have notBefore := not_lt_of_lookup orderedOthers ((same entry.1).symm.trans (foundFirst entry rest))
      have notAfter := not_lt_of_lookup ordered ((same other.1).trans (foundFirst other rest'))
      have keys : entry.1 = other.1 :=
        String.le_antisymm (String.not_lt.1 notAfter) (String.not_lt.1 notBefore)
      have values : entry.2 = other.2 := by
        have found := same entry.1
        rw [foundFirst, keys, foundFirst] at found
        exact Option.some.inj found
      obtain ⟨least, orderedRest⟩ := List.pairwise_cons.1 ordered
      obtain ⟨least', orderedRest'⟩ := List.pairwise_cons.1 orderedOthers
      rw [Prod.ext keys values, ih orderedRest orderedRest' fun key => ?_]
      by_cases isFirst : entry.1 = key
      · rw [← isFirst, lookupEntry_of_lt least, keys, lookupEntry_of_lt least']
      · have found := same key
        rwa [lookupEntry_cons, if_neg isFirst, lookupEntry_cons, if_neg (keys ▸ isFirst)] at found

theorem eq_of_get? {first second : Dict α} (same : ∀ key, first.get? key = second.get? key) :
    first = second := by
  obtain ⟨entries, ordered⟩ := first
  obtain ⟨others, orderedOthers⟩ := second
  obtain rfl := entries_eq_of_lookup ordered orderedOthers same
  rfl

theorem get?_map (change : α → β) (dict : Dict α) (key : String) :
    (dict.map change).get? key = (dict.get? key).map change :=
  lookupEntry_map change key dict.entries

theorem map_insert (change : α → β) (dict : Dict α) (key : String) (value : α) :
    (dict.insert key value).map change = (dict.map change).insert key (change value) := by
  refine eq_of_get? fun other => ?_
  rw [get?_map, get?_insert, get?_insert, get?_map]
  split <;> rfl

theorem map_insertAll (change : α → β) (dict : Dict α) (entries : List (String × α)) :
    (dict.insertAll entries).map change =
      (dict.map change).insertAll (entries.map fun entry => (entry.1, change entry.2)) := by
  induction entries generalizing dict with
  | nil => rfl
  | cons entry rest ih => rw [List.map_cons, insertAll_cons, insertAll_cons, ih, map_insert]

theorem lookupEntry_filter (keys : List String) (key : String) (entries : List (String × α)) :
    lookupEntry key (entries.filter fun entry => !keys.contains entry.1) =
      if keys.contains key then none else lookupEntry key entries := by
  induction entries with
  | nil => split <;> rfl
  | cons entry rest ih =>
    by_cases dropped : keys.contains entry.1 = true
    · rw [List.filter_cons_of_neg (by simpa using dropped), ih, lookupEntry_cons]
      by_cases same : entry.1 = key
      · rw [if_pos (same ▸ dropped), if_pos (same ▸ dropped)]
      · rw [if_neg same]
    · rw [List.filter_cons_of_pos (by simpa using dropped), lookupEntry_cons, lookupEntry_cons, ih]
      by_cases same : entry.1 = key
      · rw [if_pos same, if_neg (same ▸ dropped), if_pos same]
      · rw [if_neg same, if_neg same]

def without (keys : List String) (dict : Dict α) : Dict α where
  entries := dict.entries.filter fun entry => !keys.contains entry.1
  ordered := dict.ordered.filter _

theorem get?_without (keys : List String) (dict : Dict α) (key : String) :
    (dict.without keys).get? key = if keys.contains key then none else dict.get? key :=
  lookupEntry_filter keys key dict.entries

theorem without_insertAll_of_mem {keys : List String} (dict : Dict α) {entries : List (String × α)}
    (dropped : ∀ entry ∈ entries, entry.1 ∈ keys) :
    (dict.insertAll entries).without keys = dict.without keys := by
  refine eq_of_get? fun key => ?_
  rw [get?_without, get?_without]
  split
  · rfl
  next kept =>
    rw [get?_insertAll, lookupEntry_eq_none_iff.2, Option.none_or]
    intro member
    rw [List.map_reverse, List.mem_reverse] at member
    obtain ⟨entry, written, rfl⟩ := List.mem_map.1 member
    exact kept (List.contains_iff_mem.2 (dropped entry written))

end Dict

end VarDoc
