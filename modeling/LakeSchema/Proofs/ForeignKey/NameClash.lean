import LakeSchema.Proofs.ForeignKey.Propagation
import Mathlib.Data.List.Pairwise

/-!
# Renames onto names in use

Changed keys are propagated one after the other, and after each of them no field that it renamed may
have the name of another field of its table. `propagateAll_cases` says that this check alone decides
whether the keys are propagated, and `clashing_iff` compares it with one check at the end: it finds
what that would find, and besides it the fields that have a name only until a later key renames them.
-/

namespace LakeSchema

/-- The report of a foreign key that was renamed onto a name in use. -/
def SchemaError.nameTaken (field name table : String) : SchemaError :=
  .validation field ("renaming foreign key to '" ++ name ++
    "' collides with another field of table '" ++ table ++ "'")

theorem Field.follow_renames {f prior next : Field} {policy : OriginPolicy}
    (renamed : (f.follow policy prior next).name ≠ f.name) :
    f.originUnder policy (some prior.name) = .linked ∧
      (f.follow policy prior next).name = next.name := by
  unfold follow at renamed ⊢
  cases origin : f.originUnder policy (some prior.name) with
  | linked => exact ⟨rfl, rfl⟩
  | independent =>
    rw [origin] at renamed
    exact (renamed rfl).elim

/-- A change renames linked fields that refer to the key, and these after the key. -/
theorem KeyChange.effect_renames {change : KeyChange} {policy : OriginPolicy} {l : Location}
    {f : Field} (renamed : (change.effect policy l f).name ≠ f.name) :
    l ≠ change.key ∧ f.refersTo change.key ∧
      f.originUnder policy (some change.prior.name) = .linked ∧
      (change.effect policy l f).name = change.next.name := by
  unfold effect at renamed ⊢
  split at renamed
  · rename_i concerned
    rw [if_pos concerned]
    exact ⟨concerned.1, concerned.2, Field.follow_renames renamed⟩
  · exact (renamed rfl).elim

/-- No two fields of the table have one name, the case of ASCII letters aside. -/
def Table.NamesDiffer (t : Table) : Prop :=
  t.fields.Pairwise fun f g => Text.sameIgnoringCase f.name g.name = false

instance (t : Table) : Decidable t.NamesDiffer :=
  List.instDecidablePairwise t.fields

namespace Project

variable {p q : Project} {policy : OriginPolicy} {now : Timestamp} {change : KeyChange}
  {changes : List KeyChange} {l m : Location}

/-! ### Clashes -/

/-- Two fields of one table have one name, the case of ASCII letters aside. -/
def SameName (p : Project) (l m : Location) : Prop :=
  l ≠ m ∧ l.table = m.table ∧ ∃ f g, p.field? l = some f ∧ p.field? m = some g ∧
    Text.sameIgnoringCase f.name g.name

theorem sameIgnoringCase_comm (a b : String) :
    Text.sameIgnoringCase a b = Text.sameIgnoringCase b a :=
  Bool.beq_comm

theorem SameName.symm (same : p.SameName l m) : p.SameName m l := by
  obtain ⟨apart, table, f, g, found, other, named⟩ := same
  exact ⟨apart.symm, table.symm, g, f, other, found, by rwa [sameIgnoringCase_comm]⟩

theorem SameName.of_names (same : p.SameName l m)
    (first : (q.field? l).map (·.name) = (p.field? l).map (·.name))
    (second : (q.field? m).map (·.name) = (p.field? m).map (·.name)) : q.SameName l m := by
  obtain ⟨apart, table, f, g, found, other, named⟩ := same
  rw [found, Option.map_some, Option.map_eq_some_iff] at first
  rw [other, Option.map_some, Option.map_eq_some_iff] at second
  obtain ⟨f', found', same⟩ := first
  obtain ⟨g', other', same'⟩ := second
  exact ⟨apart, table, f', g', found', other', by rwa [same, same']⟩

theorem not_sameName (differ : ∀ t ∈ p.tables, t.NamesDiffer) : ¬ p.SameName l m := by
  rintro ⟨apart, inside, f, g, found, other, same⟩
  obtain ⟨t, located, present⟩ := Option.bind_eq_some_iff.mp found
  have there := other
  rw [field?_of_table? located inside.symm] at there
  have different : f ≠ g := by
    rintro rfl
    exact apart (congr (congrArg Location.mk inside) ((field?_id found).symm.trans (field?_id other)))
  have symmetric : Std.Symm fun f g : Field => Text.sameIgnoringCase f.name g.name = false :=
    ⟨fun f g differ => (sameIgnoringCase_comm g.name f.name).trans differ⟩
  rw [(differ t (List.mem_of_find?_eq_some located)).forall
    (List.mem_of_find?_eq_some present) (List.mem_of_find?_eq_some there) different] at same
  contradiction

theorem nameClash?_eq_some {synced : SyncedField} {error : SchemaError} (keyed : p.Keyed)
    (clash : p.nameClash? synced = some error) :
    ∃ m t f, p.SameName ⟨synced.table, synced.field⟩ m ∧ p.table? synced.table = some t ∧
      t.field? synced.field = some f ∧ error = .nameTaken synced.field f.name t.name := by
  obtain ⟨t, located, clash⟩ := Option.bind_eq_some_iff.mp clash
  obtain ⟨f, present, clash⟩ := Option.bind_eq_some_iff.mp clash
  have found : p.field? ⟨synced.table, synced.field⟩ = some f :=
    (field?_of_table? located rfl).trans present
  have named : f.id = synced.field := field?_id found
  split at clash
  · rename_i taken
    obtain ⟨other, member, differs⟩ := List.any_eq_true.mp taken
    obtain ⟨apart, same⟩ := Bool.and_eq_true_iff.mp differs
    rw [bne_iff_ne, named] at apart
    refine ⟨⟨synced.table, other.id⟩, t, f, ⟨?_, rfl, f, other, found, ?_, ?_⟩, located, present, ?_⟩
    · exact fun same => apart (congrArg Location.field same).symm
    · rw [← table?_id located]
      exact field?_of_mem keyed (List.mem_of_find?_eq_some located) member
    · rwa [sameIgnoringCase_comm]
    · rw [← named]
      exact (Option.some.inj clash).symm
  · contradiction

theorem nameClash?_isSome {synced : SyncedField} (table : synced.table = l.table)
    (field : synced.field = l.field) (same : p.SameName l m) : (p.nameClash? synced).isSome := by
  obtain ⟨apart, inside, f, g, found, other, named⟩ := same
  obtain ⟨t, located, present⟩ := Option.bind_eq_some_iff.mp found
  rw [field?_of_table? located inside.symm] at other
  have different : g.id ≠ f.id := fun same => apart <| congr (congrArg Location.mk inside) <| by
    rw [← field?_id found, ← same]
    simpa using List.find?_some other
  have taken : (t.fields.any fun h =>
      h.id != f.id && Text.sameIgnoringCase h.name f.name) = true :=
    List.any_eq_true.mpr ⟨g, List.mem_of_find?_eq_some other,
      by simpa [different] using sameIgnoringCase_comm f.name g.name ▸ named⟩
  change ((p.table? synced.table).bind fun t => (t.field? synced.field).bind fun f =>
    if t.fields.any fun other =>
        other.id != f.id && Text.sameIgnoringCase other.name f.name then _ else none).isSome
  rw [table, located, Option.bind_some, field, present, Option.bind_some, if_pos taken]
  rfl

/-! ### Renames -/

/-- A changed key renames the linked fields that refer to it under another name. -/
def Renames (p : Project) (policy : OriginPolicy) (change : KeyChange) (l : Location) : Prop :=
  change.prior.shapeChanged change.next ∧ l ≠ change.key ∧ ∃ f, p.field? l = some f ∧
    f.refersTo change.key ∧ f.originUnder policy (some change.prior.name) = .linked ∧
    f.name ≠ change.next.name

theorem renamed_iff (now : Timestamp) (keyed : p.Keyed) :
    (∃ synced ∈ (p.propagate policy change now).1.filter (·.renamed),
        synced.table = l.table ∧ synced.field = l.field) ↔ p.Renames policy change l := by
  unfold Renames propagate
  by_cases changed : change.prior.shapeChanged change.next
  · simp only [changed, if_true, true_and, List.mem_filter, KeyChange.syncedFields, List.mem_flatMap,
      List.mem_map]
    constructor
    · rintro ⟨_, ⟨⟨t, member, f, ⟨present, concerned⟩, rfl⟩, renamed⟩, table, field⟩
      obtain rfl : (⟨t.id, f.id⟩ : Location) = l := congr (congrArg Location.mk table) field
      simp only [KeyChange.concerns, Bool.and_eq_true_iff, bne_iff_ne] at concerned
      simp only [KeyChange.syncedField, Bool.and_eq_true_iff, beq_iff_eq, bne_iff_ne] at renamed
      exact ⟨concerned.1, f, field?_of_mem keyed member present, concerned.2, renamed.1, renamed.2⟩
    · rintro ⟨apart, f, found, refers, linked, other⟩
      obtain ⟨t, member, table, present, field⟩ := (field?_eq_some_iff keyed).mp found
      have location : (⟨t.id, f.id⟩ : Location) = l := congr (congrArg Location.mk table) field
      refine ⟨change.syncedField policy t f, ⟨⟨t, member, f, ⟨present, ?_⟩, rfl⟩, ?_⟩, table, field⟩
      · simp [KeyChange.concerns, location, apart, refers]
      · simp [KeyChange.syncedField, linked, other]
  · simp [changed]

theorem propagate_keyed (change : KeyChange) (policy : OriginPolicy) (now : Timestamp)
    (keyed : p.Keyed) : (p.propagate policy change now).2.Keyed := by
  unfold propagate
  split
  · exact (change.syncedTable_fieldwise policy now).keyed rfl keyed
  · exact keyed

theorem propagate_name (now : Timestamp) (kept : ¬ p.Renames policy change l) :
    ((p.propagate policy change now).2.field? l).map (·.name) = (p.field? l).map (·.name) := by
  rw [field?_propagate]
  split
  · rename_i changed
    cases found : p.field? l with
    | none => rfl
    | some f =>
      rw [Option.map_some, Option.map_some, Option.map_some, Option.some_inj]
      by_contra renamed
      obtain ⟨apart, refers, linked, taken⟩ := KeyChange.effect_renames renamed
      exact kept ⟨changed, apart, f, found, refers, linked, taken ▸ Ne.symm renamed⟩
  · rfl

theorem Renames.name (renames : p.Renames policy change l) (now : Timestamp) :
    ((p.propagate policy change now).2.field? l).map (·.name) = some change.next.name := by
  obtain ⟨changed, apart, f, found, refers, linked, _⟩ := renames
  rw [field?_propagate, if_pos changed, found, Option.map_some, Option.map_some, KeyChange.effect,
    if_pos ⟨apart, refers⟩, Field.follow, linked]

/-- The check after a change reports a field that the change renamed onto a name in use, if there is
one. -/
theorem nameClashes_cases (keyed : p.Keyed) (change : KeyChange) (policy : OriginPolicy)
    (now : Timestamp) :
    let p' := (p.propagate policy change now).2
    let report := ((p.propagate policy change now).1.filter (·.renamed)).findSome? p'.nameClash?
    (report = none ∧ ∀ l m, p.Renames policy change l → ¬ p'.SameName l m) ∨
      ∃ l m t, p.Renames policy change l ∧ p'.SameName l m ∧ p'.table? l.table = some t ∧
        report = some (.nameTaken l.field change.next.name t.name) := by
  intro p' report
  cases found : report with
  | none =>
    refine .inl ⟨rfl, fun l m renames same => ?_⟩
    obtain ⟨synced, listed, table, field⟩ := (renamed_iff now keyed).mpr renames
    have reported := nameClash?_isSome table field same
    rw [List.findSome?_eq_none_iff.mp found synced listed] at reported
    contradiction
  | some error =>
    obtain ⟨synced, listed, clash⟩ := List.exists_of_findSome?_eq_some found
    obtain ⟨m, t, f, same, located, present, rfl⟩ :=
      nameClash?_eq_some (propagate_keyed change policy now keyed) clash
    have renames : p.Renames policy change ⟨synced.table, synced.field⟩ :=
      (renamed_iff now keyed).mp ⟨synced, listed, rfl, rfl⟩
    have named : f.name = change.next.name := by
      have after := renames.name now
      rw [field?_of_table? located rfl, present] at after
      exact Option.some.inj after
    exact .inr ⟨_, m, t, renames, same, located, by rw [named]⟩

theorem propagateAll_singleton (keyed : p.Keyed) (change : KeyChange) (policy : OriginPolicy)
    (now : Timestamp) :
    let p' := (p.propagate policy change now).2
    (propagateAll policy now [change] p = .ok p' ∧
        ∀ l m, p.Renames policy change l → ¬ p'.SameName l m) ∨
      ∃ l m t, p.Renames policy change l ∧ p'.SameName l m ∧ p'.table? l.table = some t ∧
        propagateAll policy now [change] p =
          .error (.nameTaken l.field change.next.name t.name) := by
  simp only [propagateAll]
  rcases nameClashes_cases keyed change policy now with ⟨none, quiet⟩ |
    ⟨l, m, t, renames, same, located, found⟩
  · rw [none]
    exact .inl ⟨rfl, quiet⟩
  · rw [found]
    exact .inr ⟨l, m, t, renames, same, located, rfl⟩

/-! ### All changes -/

/-- The foreign keys in line with one key after the other, whatever names they take. -/
def alignAll (p : Project) (policy : OriginPolicy) (now : Timestamp) (changes : List KeyChange) :
    Project :=
  changes.foldl (fun p change => (p.propagate policy change now).2) p

/-- One of the changes renames the field at a location. -/
def Renamed (policy : OriginPolicy) (now : Timestamp) : List KeyChange → Project → Location → Prop
  | [], _, _ => False
  | change :: rest, p, l =>
    p.Renames policy change l ∨ Renamed policy now rest (p.propagate policy change now).2 l

/-- One of the changes renames a field that then has the name of another field. -/
def Clashing (policy : OriginPolicy) (now : Timestamp) : List KeyChange → Project → Prop
  | [], _ => False
  | change :: rest, p =>
    (∃ l m, p.Renames policy change l ∧ (p.propagate policy change now).2.SameName l m) ∨
      Clashing policy now rest (p.propagate policy change now).2

/-- One of the changes renames a field that then has the name of another field, and a later change
renames that other field. -/
def ClashingInPassing (policy : OriginPolicy) (now : Timestamp) : List KeyChange → Project → Prop
  | [], _ => False
  | change :: rest, p =>
    (∃ l m, p.Renames policy change l ∧ (p.propagate policy change now).2.SameName l m ∧
        Renamed policy now rest (p.propagate policy change now).2 m) ∨
      ClashingInPassing policy now rest (p.propagate policy change now).2

/-- Keys are propagated unless a field is renamed onto a name in use, which is then reported. -/
theorem propagateAll_cases (keyed : p.Keyed) (policy : OriginPolicy) (now : Timestamp)
    (changes : List KeyChange) :
    (¬ Clashing policy now changes p ∧
        propagateAll policy now changes p = .ok (p.alignAll policy now changes)) ∨
      (Clashing policy now changes p ∧ ∃ field name table,
        propagateAll policy now changes p = .error (.nameTaken field name table)) := by
  induction changes generalizing p with
  | nil => exact .inl ⟨not_false, rfl⟩
  | cons change rest ih =>
    simp only [propagateAll, Clashing]
    rcases nameClashes_cases keyed change policy now with ⟨none, quiet⟩ |
      ⟨l, m, t, renames, same, _, found⟩
    · have here : ¬ ∃ l m, p.Renames policy change l ∧
          (p.propagate policy change now).2.SameName l m := by
        rintro ⟨l, m, renames, same⟩
        exact quiet l m renames same
      rw [none]
      simp only [here, false_or]
      exact ih (propagate_keyed change policy now keyed)
    · rw [found]
      exact .inr ⟨.inl ⟨l, m, renames, same⟩, _, _, _, rfl⟩

theorem alignAll_name (kept : ¬ Renamed policy now changes p l) :
    ((p.alignAll policy now changes).field? l).map (·.name) = (p.field? l).map (·.name) := by
  induction changes generalizing p with
  | nil => rfl
  | cons change rest ih =>
    simp only [Renamed, not_or] at kept
    exact (ih kept.2).trans (propagate_name now kept.1)

theorem refersTo_propagate (change : KeyChange) (policy : OriginPolicy) (now : Timestamp)
    (k : Location) :
    ((p.propagate policy change now).2.field? l).any (·.refersTo k) =
      (p.field? l).any (·.refersTo k) := by
  rw [field?_propagate]
  split
  · rw [Option.any_map]
    congr 1
    funext f
    rw [Field.refersTo, (change.effect_keeps policy l f).2.1, Field.refersTo]
  · rfl

/-- A field is renamed after a key that it refers to. -/
theorem Renamed.refersTo (renamed : Renamed policy now changes p l) :
    ∃ change ∈ changes, (p.field? l).any (·.refersTo change.key) := by
  induction changes generalizing p with
  | nil => exact renamed.elim
  | cons change rest ih =>
    rcases renamed with ⟨_, _, f, found, refers, _⟩ | later
    · exact ⟨change, List.mem_cons_self, by simp [found, refers]⟩
    · obtain ⟨other, member, refers⟩ := ih later
      rw [refersTo_propagate] at refers
      exact ⟨other, List.mem_cons_of_mem change member, refers⟩

/-- Of changes to different keys one at most renames a field, since it refers to one key only. -/
theorem Renames.not_renamed (renames : p.Renames policy change l)
    (new : change.key ∉ changes.map KeyChange.key) :
    ¬ Renamed policy now changes (p.propagate policy change now).2 l := by
  intro later
  obtain ⟨_, _, f, found, refers, _⟩ := renames
  obtain ⟨other, member, again⟩ := later.refersTo
  rw [refersTo_propagate, found, Option.any_some] at again
  obtain ⟨r, known, here⟩ := refersTo_iff.mp refers
  obtain ⟨r', known', there⟩ := refersTo_iff.mp again
  obtain rfl : r = r' := Option.some.inj (known.symm.trans known')
  exact new (List.mem_map.mpr ⟨other, member, there.symm.trans here⟩)

/-- A field that was renamed and has the name of another field in the end had it when the last of the
two got its name. -/
theorem Renamed.clashing (renamed : Renamed policy now changes p l)
    (same : (p.alignAll policy now changes).SameName l m) : Clashing policy now changes p := by
  induction changes generalizing p l m with
  | nil => exact renamed.elim
  | cons change rest ih =>
    change ((p.propagate policy change now).2.alignAll policy now rest).SameName l m at same
    by_cases first : Renamed policy now rest (p.propagate policy change now).2 l
    · exact .inr (ih first same)
    by_cases second : Renamed policy now rest (p.propagate policy change now).2 m
    · exact .inr (ih second same.symm)
    -- Neither is renamed later, so that both have their names already.
    exact .inl ⟨l, m, renamed.resolve_right first,
      same.of_names (alignAll_name first).symm (alignAll_name second).symm⟩

theorem ClashingInPassing.clashing (passing : ClashingInPassing policy now changes p) :
    Clashing policy now changes p := by
  induction changes generalizing p with
  | nil => exact passing
  | cons change rest ih =>
    rcases passing with ⟨l, m, renames, same, _⟩ | later
    · exact .inl ⟨l, m, renames, same⟩
    · exact .inr (ih later)

/-- The check after each change finds the clashes that are there in the end and those in passing. -/
theorem clashing_iff (distinct : (changes.map KeyChange.key).Nodup) :
    Clashing policy now changes p ↔
      (∃ l m, Renamed policy now changes p l ∧ (p.alignAll policy now changes).SameName l m) ∨
        ClashingInPassing policy now changes p := by
  refine ⟨fun clashing => ?_, fun found => ?_⟩
  · induction changes generalizing p with
    | nil => exact clashing.elim
    | cons change rest ih =>
      rw [List.map_cons, List.nodup_cons] at distinct
      rcases clashing with ⟨l, m, renames, same⟩ | later
      · -- The renamed field keeps its name, since its key is not listed again. So the clash stays
        -- unless a later key renames the other field.
        by_cases passing : Renamed policy now rest (p.propagate policy change now).2 m
        · exact .inr (.inl ⟨l, m, renames, same, passing⟩)
        · exact .inl ⟨l, m, .inl renames, same.of_names
            (alignAll_name (renames.not_renamed distinct.1)) (alignAll_name passing)⟩
      · rcases ih distinct.2 later with ⟨l, m, renamed, same⟩ | passing
        · exact .inl ⟨l, m, .inr renamed, same⟩
        · exact .inr (.inr passing)
  · rcases found with ⟨l, m, renamed, same⟩ | passing
    · exact renamed.clashing same
    · exact passing.clashing

end Project
end LakeSchema
