import LakeSchema.Document.Encode

/-!
# Members of objects

Members in ascending order are found as they were listed (`get?_canonical`), and putting in a member
that is there changes nothing (`put_eq_self`).
-/

namespace LakeSchema.Json

theorem sortedItems_eq_map (items : List Json) : sortedItems items = items.map sorted := by
  induction items with
  | nil => rfl
  | cons item rest ih => rw [sortedItems, ih, List.map_cons]

theorem sortedMembers_eq_map (members : Members) :
    sortedMembers members = members.map fun member => (member.1, member.2.sorted) := by
  induction members with
  | nil => rfl
  | cons member rest ih => rw [sortedMembers, ih, List.map_cons]

namespace Members

variable {name other : String} {value : Json} {members : Members}

/-- No two members have one name, and names ascend. -/
def Ascending (members : Members) : Prop :=
  members.Pairwise fun a b => a.1 < b.1

theorem get?_cons (name other : String) (value : Json) (rest : Members) :
    Members.get? name ((other, value) :: rest) =
      if name = other then some value else Members.get? name rest := by
  rw [get?, List.lookup_cons]
  by_cases same : name = other
  · simp [same]
  · simp [same, beq_false_of_ne same, get?]

theorem get?_append (name : String) (front back : Members) :
    Members.get? name (front ++ back) = (Members.get? name front).or (Members.get? name back) := by
  induction front with
  | nil => rfl
  | cons first rest ih =>
    rw [List.cons_append, get?_cons, get?_cons, ih]
    split <;> rfl

theorem mem_of_get? (found : members.get? name = some value) : (name, value) ∈ members := by
  induction members with
  | nil => contradiction
  | cons first rest ih =>
    rw [get?_cons] at found
    split at found
    · rename_i same
      obtain rfl := Option.some.inj found
      exact same ▸ List.mem_cons_self
    · exact List.mem_cons_of_mem first (ih found)

/-! ### Putting members in -/

theorem get?_put (name other : String) (value : Json) (members : Members) :
    (members.put name value).get? other =
      if other = name then some value else members.get? other := by
  induction members with
  | nil => rw [put, get?_cons]
  | cons first rest ih =>
    rw [put]
    split
    · rw [get?_cons]
    · split
      · rename_i same
        obtain rfl := eq_of_beq same
        rw [get?_cons, get?_cons]
        split <;> rfl
      · rename_i differ
        rw [get?_cons, ih, get?_cons]
        grind

theorem name_of_mem_put {member : String × Json} (inside : member ∈ members.put name value) :
    member.1 = name ∨ member ∈ members := by
  induction members with
  | nil => exact .inl (congrArg Prod.fst (List.mem_singleton.mp inside))
  | cons first rest ih =>
    rw [put] at inside
    grind

theorem Ascending.put (ascending : members.Ascending) (name : String) (value : Json) :
    (members.put name value).Ascending := by
  induction members with
  | nil => exact List.pairwise_singleton _ _
  | cons first rest ih =>
    obtain ⟨least, ordered⟩ := List.pairwise_cons.mp ascending
    rw [Members.put]
    split
    · rename_i before
      refine .cons (fun member inside => ?_) ascending
      rcases List.mem_cons.mp inside with rfl | later
      · exact before
      · exact String.lt_trans before (least member later)
    · split
      · rename_i same
        exact .cons (fun member later => eq_of_beq same ▸ least member later) ordered
      · rename_i behind differ
        refine .cons (fun member inside => ?_) (ih ordered)
        rcases name_of_mem_put inside with same | later
        · rw [same]
          have apart : first.1 ≠ name := fun same => differ (beq_iff_eq.mpr same.symm)
          exact Std.lt_of_le_of_ne (Std.not_lt.mp behind) apart
        · exact least member later

/-- A member that is there need not be put in. -/
theorem Ascending.put_eq_self (ascending : members.Ascending) (found : members.get? name = some value) :
    members.put name value = members := by
  induction members with
  | nil => contradiction
  | cons first rest ih =>
    obtain ⟨least, ordered⟩ := List.pairwise_cons.mp ascending
    rw [get?_cons] at found
    rw [Members.put]
    split at found
    · rename_i same
      obtain rfl := Option.some.inj found
      rw [if_neg (same ▸ String.lt_irrefl first.1), if_pos (beq_iff_eq.mpr same), same]
    · rename_i differ
      have behind : first.1 < name := least (name, value) (mem_of_get? found)
      rw [if_neg (String.lt_asymm behind), if_neg (mt eq_of_beq differ), ih ordered found]

/-! ### Members in ascending order -/

theorem Ascending.get?_eq_some_iff (ascending : members.Ascending) :
    members.get? name = some value ↔ (name, value) ∈ members := by
  refine ⟨mem_of_get?, fun inside => ?_⟩
  induction members with
  | nil => contradiction
  | cons first rest ih =>
    obtain ⟨least, ordered⟩ := List.pairwise_cons.mp ascending
    rw [get?_cons]
    rcases List.mem_cons.mp inside with rfl | later
    · exact if_pos rfl
    · have before : first.1 < name := least (name, value) later
      have apart : name ≠ first.1 := by
        rintro rfl
        exact String.lt_irrefl _ before
      rw [if_neg apart, ih ordered later]

theorem Ascending.nodup (ascending : members.Ascending) : members.Nodup := by
  refine List.Pairwise.imp (fun before => ?_) ascending
  rintro rfl
  exact String.lt_irrefl _ before

/-- Members in ascending order are given by the values under their names. -/
theorem Ascending.ext {a b : Members} (first : a.Ascending) (second : b.Ascending)
    (same : ∀ name, a.get? name = b.get? name) : a = b := by
  have perm : a.Perm b := (List.perm_ext_iff_of_nodup first.nodup second.nodup).mpr fun member => by
    rw [← first.get?_eq_some_iff, same, second.get?_eq_some_iff]
  exact perm.eq_of_pairwise (fun _ _ _ _ before after => absurd before (String.lt_asymm after)) first
    second

/-- The value of the last member of a name. -/
def latest? (name : String) (members : Members) : Option Json :=
  Members.get? name members.reverse

@[simp]
theorem latest?_nil (name : String) : latest? name [] = none :=
  rfl

@[simp]
theorem latest?_cons (name other : String) (value : Json) (rest : Members) :
    latest? name ((other, value) :: rest) =
      (latest? name rest).or (if name = other then some value else none) := by
  rw [latest?, List.reverse_cons, get?_append, get?_cons]
  rfl

@[simp]
theorem latest?_append (name : String) (front back : Members) :
    latest? name (front ++ back) = (latest? name back).or (latest? name front) := by
  rw [latest?, List.reverse_append, get?_append]
  rfl

@[simp]
theorem latest?_optionalMember (name other : String) (value : Option Json) :
    latest? name (optionalMember other value) = if name = other then value else none := by
  cases value <;> simp [optionalMember]

@[simp]
theorem latest?_optionalString (name other : String) (text : Option String) :
    latest? name (optionalString other text) =
      if name = other then text.map Json.string else none :=
  latest?_optionalMember name other _

@[simp]
theorem latest?_listMember (name other : String) (items : List Json) :
    latest? name (listMember other items) =
      if name = other ∧ items ≠ [] then some (.array items) else none := by
  cases items <;> simp [listMember]

theorem get?_foldl_put (name : String) (listed members : Members) :
    Members.get? name (listed.foldl (fun sorted member => sorted.put member.1 member.2) members) =
      (latest? name listed).or (members.get? name) := by
  induction listed generalizing members with
  | nil => rfl
  | cons first rest ih =>
    rw [List.foldl_cons, ih, get?_put, latest?_cons, Option.or_assoc]
    congr 1
    split <;> rfl

theorem get?_sorted (name : String) (members : Members) :
    (Members.sorted members).get? name = latest? name members := by
  rw [Members.sorted, get?_foldl_put]
  exact Option.or_none

theorem ascending_sorted (members : Members) : (Members.sorted members).Ascending := by
  have kept : ∀ (listed sorted : Members), sorted.Ascending →
      (listed.foldl (fun sorted member => sorted.put member.1 member.2) sorted).Ascending := by
    intro listed
    induction listed with
    | nil => exact fun _ ascending => ascending
    | cons first rest ih => exact fun _ ascending => ih _ (ascending.put first.1 first.2)
  exact kept members [] .nil

theorem put_of_greater (greater : ∀ member ∈ members, member.1 < name) :
    members.put name value = members ++ [(name, value)] := by
  induction members with
  | nil => rfl
  | cons first rest ih =>
    have before : first.1 < name := greater first List.mem_cons_self
    have differ : ¬ (name == first.1) = true := by
      intro same
      rw [eq_of_beq same] at before
      exact String.lt_irrefl _ before
    rw [put, if_neg (String.lt_asymm before), if_neg differ,
      ih fun member later => greater member (List.mem_cons_of_mem first later)]
    rfl

theorem sorted_eq_self (ascending : members.Ascending) : Members.sorted members = members := by
  have whole : ∀ (rest front : Members), (front ++ rest).Ascending →
      rest.foldl (fun sorted member => sorted.put member.1 member.2) front = front ++ rest := by
    intro rest
    induction rest with
    | nil => exact fun front _ => (List.append_nil front).symm
    | cons first rest ih =>
      intro front ascending
      have greater : ∀ member ∈ front, member.1 < first.1 := fun member known =>
        (List.pairwise_append.mp ascending).2.2 member known first List.mem_cons_self
      have next : front.put first.1 first.2 = front ++ [first] := put_of_greater greater
      rw [List.foldl_cons, next, ih (front ++ [first]) (by rwa [List.append_assoc])]
      rw [List.append_assoc]
      rfl
  exact whole members [] ascending

/-- The members of the sorted value of an object. -/
def canonical (members : Members) : Members :=
  Members.sorted (sortedMembers members)

theorem sorted_object (members : Members) :
    (Json.object members).sorted = .object (Members.canonical members) :=
  rfl

theorem ascending_canonical (members : Members) : (Members.canonical members).Ascending :=
  ascending_sorted _

theorem name_of_mem_sorted {member : String × Json} (inside : member ∈ Members.sorted members) :
    member.1 ∈ members.map Prod.fst := by
  have known : ∀ listed sorted : Members,
      member ∈ listed.foldl (fun sorted member => sorted.put member.1 member.2) sorted →
        member.1 ∈ listed.map Prod.fst ∨ member ∈ sorted := by
    intro listed
    induction listed with
    | nil => exact fun _ => .inr
    | cons first rest ih =>
      intro sorted inside
      rcases ih _ inside with later | put
      · exact .inl (List.mem_cons_of_mem _ later)
      · rcases name_of_mem_put put with same | old
        · exact .inl (same ▸ List.mem_cons_self)
        · exact .inr old
  exact (known members [] inside).resolve_right List.not_mem_nil

theorem name_of_mem_canonical {member : String × Json} (inside : member ∈ Members.canonical members) :
    member.1 ∈ members.map Prod.fst := by
  have listed := name_of_mem_sorted inside
  rwa [sortedMembers_eq_map, List.map_map] at listed

theorem get?_canonical (name : String) (members : Members) :
    (Members.canonical members).get? name = (latest? name members).map Json.sorted := by
  rw [canonical, get?_sorted, sortedMembers_eq_map, latest?, latest?, ← List.map_reverse]
  induction members.reverse with
  | nil => rfl
  | cons first rest ih =>
    rw [List.map_cons, get?_cons, get?_cons, ih]
    split <;> rfl

/-- A further member is put in. -/
theorem canonical_concat (members : Members) (name : String) (value : Json) :
    Members.canonical (members ++ [(name, value)]) =
      (Members.canonical members).put name value.sorted := by
  rw [canonical, sortedMembers_eq_map, List.map_append, Members.sorted, List.foldl_append,
    ← sortedMembers_eq_map]
  rfl

/-! ### Depth -/

theorem depth_le_of_get? (found : members.get? name = some value) :
    value.depth ≤ depthOfMembers members := by
  induction members with
  | nil => contradiction
  | cons first rest ih =>
    rw [get?_cons] at found
    rw [depthOfMembers]
    split at found
    · obtain rfl := Option.some.inj found
      exact Nat.le_max_left _ _
    · exact Nat.le_trans (ih found) (Nat.le_max_right _ _)

end Members

theorem depth_le_of_mem {item : Json} {items : List Json} (inside : item ∈ items) :
    item.depth ≤ depthOfItems items := by
  induction items with
  | nil => contradiction
  | cons first rest ih =>
    rw [depthOfItems]
    rcases List.mem_cons.mp inside with rfl | later
    · exact Nat.le_max_left _ _
    · exact Nat.le_trans (ih later) (Nat.le_max_right _ _)

/-- An item of a list member is two levels below the object. -/
theorem depth_lt_of_listed (name : String) {item : Json} {items : List Json} {listed : Members}
    (found : Members.latest? name listed = some (.array items)) (inside : item ∈ items) :
    item.sorted.depth + 1 < (Json.object listed).sorted.depth := by
  have present : (Members.canonical listed).get? name = some (.array (sortedItems items)) := by
    rw [Members.get?_canonical, found]
    rfl
  have member := Members.depth_le_of_get? present
  have below : item.sorted.depth ≤ depthOfItems (sortedItems items) := by
    refine depth_le_of_mem ?_
    rw [sortedItems_eq_map]
    exact List.mem_map_of_mem inside
  rw [depth] at member
  rw [Members.sorted_object, depth]
  omega

end LakeSchema.Json
