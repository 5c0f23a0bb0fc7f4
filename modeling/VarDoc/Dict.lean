/-! Maps from text to values, as lists of entries in strictly increasing order
of their keys. Keys are ordered by code points. Writing a key that is already
there replaces its value. -/

set_option autoImplicit false

namespace VarDoc

variable {α β : Type}

/-- Puts an entry in its place; an entry with the same key gives way. -/
def insertEntry (key : String) (value : α) : List (String × α) → List (String × α)
  | [] => [(key, value)]
  | (key', value') :: rest =>
    if key < key' then (key, value) :: (key', value') :: rest
    else if key = key' then (key, value) :: rest
    else (key', value') :: insertEntry key value rest

def sortEntries (entries : List (String × α)) : List (String × α) :=
  entries.foldl (fun sorted (key, value) => insertEntry key value sorted) []

def lookupEntry (key : String) (entries : List (String × α)) : Option α :=
  (entries.find? (·.1 == key)).map Prod.snd

def Ordered (entries : List (String × α)) : Prop :=
  entries.Pairwise (fun left right => left.1 < right.1)

theorem mem_insertEntry {key : String} {value : α} {entry : String × α}
    {entries : List (String × α)} (member : entry ∈ insertEntry key value entries) :
    entry = (key, value) ∨ entry ∈ entries := by
  induction entries with
  | nil => simpa [insertEntry] using member
  | cons first rest ih =>
    unfold insertEntry at member
    split at member
    · simpa using member
    · split at member
      · simp only [List.mem_cons] at member ⊢
        exact member.imp_right Or.inr
      · simp only [List.mem_cons] at member ⊢
        rcases member with same | later
        · exact .inr (.inl same)
        · exact (ih later).imp_right Or.inr

theorem ordered_insertEntry (key : String) (value : α) {entries : List (String × α)}
    (ordered : Ordered entries) : Ordered (insertEntry key value entries) := by
  induction entries with
  | nil => simp [insertEntry, Ordered]
  | cons first rest ih =>
    obtain ⟨key', value'⟩ := first
    simp only [Ordered, List.pairwise_cons] at ordered
    obtain ⟨least, restOrdered⟩ := ordered
    unfold insertEntry
    split
    next before =>
      simp only [Ordered, List.pairwise_cons, List.mem_cons]
      refine ⟨?_, least, restOrdered⟩
      rintro entry (rfl | later)
      · exact before
      · exact String.lt_trans before (least entry later)
    next notBefore =>
      split
      next same =>
        subst same
        exact List.pairwise_cons.2 ⟨least, restOrdered⟩
      next different =>
        have after : key' < key :=
          Std.lt_of_le_of_ne (String.not_lt.1 notBefore) (Ne.symm different)
        refine List.pairwise_cons.2 ⟨?_, ih restOrdered⟩
        intro entry member
        rcases mem_insertEntry member with same | later
        · subst same
          exact after
        · exact least entry later

structure Dict (α : Type) where
  entries : List (String × α)
  ordered : Ordered entries

namespace Dict

def empty : Dict α := ⟨[], List.Pairwise.nil⟩

instance : EmptyCollection (Dict α) := ⟨empty⟩

instance : Inhabited (Dict α) := ⟨empty⟩

def insert (dict : Dict α) (key : String) (value : α) : Dict α :=
  ⟨insertEntry key value dict.entries, ordered_insertEntry key value dict.ordered⟩

def get? (dict : Dict α) (key : String) : Option α := lookupEntry key dict.entries

def contains (dict : Dict α) (key : String) : Bool := (dict.get? key).isSome

def keys (dict : Dict α) : List String := dict.entries.map Prod.fst

def values (dict : Dict α) : List α := dict.entries.map Prod.snd

def size (dict : Dict α) : Nat := dict.entries.length

/-- Of several entries with one key the last wins. -/
def ofList (entries : List (String × α)) : Dict α :=
  entries.foldl (fun dict (key, value) => dict.insert key value) empty

def insertAll (dict : Dict α) (entries : List (String × α)) : Dict α :=
  entries.foldl (fun dict (key, value) => dict.insert key value) dict

def filterMap (change : String → α → Option β) (dict : Dict α) : Dict β where
  entries := dict.entries.filterMap fun (key, value) => (change key value).map (key, ·)
  ordered := by
    refine List.Pairwise.filterMap _ ?_ dict.ordered
    rintro ⟨key, value⟩ ⟨key', value'⟩ before entry made entry' made'
    simp only [Option.map_eq_some_iff] at made made'
    obtain ⟨_, _, rfl⟩ := made
    obtain ⟨_, _, rfl⟩ := made'
    exact before

end Dict

end VarDoc
