/-!
# Tag maps

Tables, fields and views carry tags, a map from keys to values in ascending order of keys.
`get?_insert` says what adding an entry does to the values, and `get?_merge` what merging does.
-/

namespace LakeSchema

structure TagMap where
  entries : List (String × String)
  ascending : entries.Pairwise fun a b => a.1 < b.1
deriving DecidableEq

namespace TagMap

def empty : TagMap :=
  ⟨[], .nil⟩

instance : Inhabited TagMap := ⟨empty⟩

def isEmpty (tags : TagMap) : Bool :=
  tags.entries.isEmpty

def get? (key : String) (tags : TagMap) : Option String :=
  tags.entries.lookup key

/-- Adds an entry to an ascending list, or replaces the one with its key. -/
def insertEntry (key value : String) : List (String × String) → List (String × String)
  | [] => [(key, value)]
  | (other, kept) :: rest =>
    if key < other then (key, value) :: (other, kept) :: rest
    else if key = other then (key, value) :: rest
    else (other, kept) :: insertEntry key value rest

theorem key_of_mem_insertEntry {key value : String} {entry : String × String}
    {entries : List (String × String)} (member : entry ∈ insertEntry key value entries) :
    entry.1 = key ∨ entry ∈ entries := by
  induction entries with
  | nil => simp_all [insertEntry]
  | cons first rest ih =>
    rw [insertEntry] at member
    split at member
    · grind
    · split at member
      · grind
      · grind

theorem ascending_insertEntry {key value : String} {entries : List (String × String)}
    (ascending : entries.Pairwise fun a b => a.1 < b.1) :
    (insertEntry key value entries).Pairwise fun a b => a.1 < b.1 := by
  induction entries with
  | nil => simp [insertEntry]
  | cons first rest ih =>
    rw [List.pairwise_cons] at ascending
    rw [insertEntry]
    split
    · rename_i smaller
      refine .cons ?_ (.cons ascending.1 ascending.2)
      intro entry member
      rcases List.mem_cons.mp member with rfl | member
      · exact smaller
      · exact String.lt_trans smaller (ascending.1 entry member)
    · split
      · rename_i same
        exact .cons (fun entry member => same ▸ ascending.1 entry member) ascending.2
      · refine .cons ?_ (ih ascending.2)
        intro entry member
        rcases key_of_mem_insertEntry member with same | member
        · grind
        · exact ascending.1 entry member

def insert (key value : String) (tags : TagMap) : TagMap :=
  ⟨insertEntry key value tags.entries, ascending_insertEntry tags.ascending⟩

/-- Entries put in one after the other, so that of two with one key the later stays. -/
def insertAll (entries : List (String × String)) (tags : TagMap) : TagMap :=
  entries.foldl (fun tags entry => tags.insert entry.1 entry.2) tags

def ofList (entries : List (String × String)) : TagMap :=
  empty.insertAll entries

/-- All entries of both maps; where a key is in both, the value of `overrides` counts. -/
def merge (base overrides : TagMap) : TagMap :=
  base.insertAll overrides.entries

theorem lookup_cons_eq (other : String) (first : String × String)
    (rest : List (String × String)) :
    (first :: rest).lookup other = if other = first.1 then some first.2 else rest.lookup other := by
  rw [List.lookup_cons]
  by_cases same : other = first.1
  · simp [same]
  · simp [same, beq_false_of_ne same]

theorem lookup_insertEntry (key value other : String) (entries : List (String × String)) :
    (insertEntry key value entries).lookup other =
      if other = key then some value else entries.lookup other := by
  induction entries with
  | nil => simp [insertEntry]
  | cons first rest ih =>
    rw [insertEntry]
    split
    · rw [lookup_cons_eq]
    · split <;> simp only [lookup_cons_eq, ih] <;> grind

@[simp]
theorem get?_insert (key value other : String) (tags : TagMap) :
    (tags.insert key value).get? other = if other = key then some value else tags.get? other :=
  lookup_insertEntry key value other tags.entries

theorem get?_insertAll (key : String) {entries : List (String × String)}
    (ascending : entries.Pairwise fun a b => a.1 < b.1) (tags : TagMap) :
    (tags.insertAll entries).get? key = (entries.lookup key).or (tags.get? key) := by
  induction entries generalizing tags with
  | nil => rfl
  | cons first rest ih =>
    rw [List.pairwise_cons] at ascending
    change ((tags.insert first.1 first.2).insertAll rest).get? key = _
    rw [ih ascending.2, get?_insert, lookup_cons_eq]
    by_cases here : key = first.1
    · have absent : rest.lookup key = none := List.lookup_eq_none_iff.mpr fun entry later => by
        have smaller : key < entry.1 := here ▸ ascending.1 entry later
        exact bne_iff_ne.mpr (String.ne_of_lt smaller)
      rw [if_pos here, if_pos here, absent, Option.none_or, Option.some_or]
    · rw [if_neg here, if_neg here]

/-- Where both maps have a value, that of the overriding map counts. -/
@[simp]
theorem get?_merge (key : String) (base overrides : TagMap) :
    (base.merge overrides).get? key = (overrides.get? key).or (base.get? key) :=
  get?_insertAll key overrides.ascending base

end TagMap
end LakeSchema
