import LakeSchema.Proofs.Edit.IndependentKey

/-!
# What the report of a deletion says

The report on a deleted table lists the relationships that touch it, each with the verdict on its
dependent field when its turn came (`mem_reconciled_iff`). What happens after a turn is not reported:
a removed field takes along relationships of other tables, and a detached field may be removed by a
later relationship. `deleteTable_faithful_iff` shows that a report is wrong in no other way.
-/

namespace LakeSchema

/-- The report agrees with the projects before and after the deletion: it lists the relationships
that are gone, and calls dependent fields removed or detached that are. -/
structure TableDeletion.Faithful (d : TableDeletion) (before after : Project) : Prop where
  once : d.relationships.Nodup
  gone : ∀ id, id ∈ d.relationships ↔
    id ∈ before.relationships.map (·.id) ∧ id ∉ after.relationships.map (·.id)
  removed : ∀ r ∈ before.relationships, (r.id, .removed) ∈ d.reconciled →
    after.field? r.dependent = none
  detached : ∀ r ∈ before.relationships, (r.id, .detached) ∈ d.reconciled →
    ∃ f, after.field? r.dependent = some f ∧ f.reference = none

/-- What a report leaves open: relationships on removed fields are gone as well, and a detached field
is gone if it is also called removed. -/
structure TableDeletion.Accounts (d : TableDeletion) (before after : Project) : Prop where
  once : d.relationships.Nodup
  entries : d.reconciled.map Prod.fst = d.relationships
  known : ∀ id ∈ d.relationships, id ∈ before.relationships.map (·.id)
  gone : ∀ r ∈ before.relationships, r.id ∉ after.relationships.map (·.id) ↔
    r.id ∈ d.relationships ∨
      ∃ s ∈ before.relationships, (s.id, .removed) ∈ d.reconciled ∧ r.touchesField s.dependent
  removed : ∀ r ∈ before.relationships, (r.id, .removed) ∈ d.reconciled →
    after.field? r.dependent = none
  detached : ∀ r ∈ before.relationships, (r.id, .detached) ∈ d.reconciled →
    (after.field? r.dependent = none ↔
      ∃ s ∈ before.relationships, (s.id, .removed) ∈ d.reconciled ∧ s.dependent = r.dependent) ∧
    ∀ f, after.field? r.dependent = some f → f.reference = none

/-- A report leaves nothing open if all relationships on removed fields are listed and no field is
called both removed and detached. -/
theorem TableDeletion.Accounts.faithful_iff {d : TableDeletion} {before after : Project}
    (accounts : d.Accounts before after) :
    d.Faithful before after ↔
      ∀ r ∈ before.relationships, (r.id, .removed) ∈ d.reconciled →
        ∀ s ∈ before.relationships, (s.touchesField r.dependent → s.id ∈ d.relationships) ∧
          ((s.id, .detached) ∈ d.reconciled → s.dependent ≠ r.dependent) := by
  constructor
  · intro faithful r member removed s present
    refine ⟨fun touches => (faithful.gone s.id).mpr ⟨List.mem_map_of_mem present, ?_⟩, ?_⟩
    · exact (accounts.gone s present).mpr (.inr ⟨r, member, removed, touches⟩)
    · intro detached same
      obtain ⟨f, found, _⟩ := faithful.detached s present detached
      rw [same, accounts.removed r member removed] at found
      contradiction
  · intro complete
    refine ⟨accounts.once, fun id => ⟨fun listed => ?_, ?_⟩, accounts.removed, ?_⟩
    · obtain ⟨r, member, rfl⟩ := List.mem_map.mp (accounts.known id listed)
      exact ⟨accounts.known _ listed, (accounts.gone r member).mpr (.inl listed)⟩
    · rintro ⟨known, lost⟩
      obtain ⟨r, member, rfl⟩ := List.mem_map.mp known
      rcases (accounts.gone r member).mp lost with listed | ⟨s, present, removed, touches⟩
      · exact listed
      · exact (complete s present removed r member).1 touches
    · intro r member detached
      obtain ⟨lost, plain⟩ := accounts.detached r member detached
      cases found : after.field? r.dependent with
      | none =>
        obtain ⟨s, present, removed, same⟩ := lost.mp found
        exact ((complete s present removed r member).2 detached same.symm).elim
      | some f => exact ⟨f, rfl, plain f found⟩

theorem Field.detachWhen_plain {condition : Field → Bool} {f : Field} (plain : f.reference = none) :
    (f.detachWhen condition).reference = none := by
  unfold detachWhen
  split
  · rfl
  · exact plain

namespace Project

variable {p : Project} {policy : OriginPolicy} {r s : Relationship} {now : Timestamp}
  {table : String} {rs rest : List Relationship} {outcome : Reconciliation}

/-! ### Verdicts in turn -/

/-- When its turn comes, the verdict on the dependent field of a relationship is `outcome`. -/
def Settles (policy : OriginPolicy) (table : String) (now : Timestamp) (rs : List Relationship)
    (p : Project) (r : Relationship) (outcome : Reconciliation) : Prop :=
  ∃ before after, rs = before ++ r :: after ∧ r.dependent.table ≠ table ∧
    (reconcileAll policy table now before p).2.verdict policy r = outcome

theorem settles_nil : ¬ Settles policy table now [] p r outcome := by
  rintro ⟨before, after, split, _⟩
  simp at split

theorem settles_cons :
    Settles policy table now (r :: rest) p s outcome ↔
      s = r ∧ r.dependent.table ≠ table ∧ p.verdict policy r = outcome ∨
        Settles policy table now rest (reconcileAll policy table now [r] p).2 s outcome := by
  constructor
  · rintro ⟨before, after, split, outside, verdict⟩
    cases before with
    | nil =>
      obtain ⟨rfl, _⟩ := List.cons.inj split
      exact .inl ⟨rfl, outside, verdict⟩
    | cons first before =>
      obtain ⟨rfl, rfl⟩ := List.cons.inj split
      rw [reconcileAll_cons] at verdict
      exact .inr ⟨before, after, rfl, outside, verdict⟩
  · rintro (⟨rfl, outside, verdict⟩ | ⟨before, after, rfl, outside, verdict⟩)
    · exact ⟨[], rest, rfl, outside, verdict⟩
    · refine ⟨r :: before, after, rfl, outside, ?_⟩
      rwa [reconcileAll_cons]

theorem Settles.mem (settles : Settles policy table now rs p r outcome) : r ∈ rs := by
  obtain ⟨before, after, rfl, _⟩ := settles
  simp

theorem Settles.outside (settles : Settles policy table now rs p r outcome) :
    r.dependent.table ≠ table := by
  obtain ⟨_, _, _, outside, _⟩ := settles
  exact outside

theorem reconciled_cons :
    (reconcileAll policy table now (r :: rest) p).1 =
      (r.id, if r.dependent.table = table then .skipped else p.verdict policy r) ::
        (reconcileAll policy table now rest (reconcileAll policy table now [r] p).2).1 := by
  rw [reconcileAll_singleton]
  by_cases inside : r.dependent.table = table <;> simp [reconcileAll, inside, reconcile_fst]

theorem reconciled_ids :
    (reconcileAll policy table now rs p).1.map Prod.fst = rs.map (·.id) := by
  induction rs generalizing p with
  | nil => rfl
  | cons r rest ih => rw [reconciled_cons, List.map_cons, List.map_cons, ih]

/-- Apart from the relationships skipped, the report holds the verdicts in turn. -/
theorem mem_reconciled_iff {id : String} (passed : outcome ≠ .skipped) :
    (id, outcome) ∈ (reconcileAll policy table now rs p).1 ↔
      ∃ r, r.id = id ∧ Settles policy table now rs p r outcome := by
  induction rs generalizing p with
  | nil => simp [reconcileAll, settles_nil]
  | cons r rest ih =>
    have first : (id, outcome) =
        (r.id, if r.dependent.table = table then .skipped else p.verdict policy r) ↔
          r.id = id ∧ r.dependent.table ≠ table ∧ p.verdict policy r = outcome := by
      rw [Prod.mk.injEq, eq_comm (a := id)]
      by_cases inside : r.dependent.table = table
      · simp [inside, passed]
      · simp [inside, eq_comm (a := outcome)]
    rw [reconciled_cons, List.mem_cons, first, ih]
    simp only [settles_cons, and_or_left, exists_or]
    refine or_congr_left ⟨fun here => ⟨r, here.1, rfl, here.2⟩, ?_⟩
    rintro ⟨s, named, rfl, here⟩
    exact ⟨named, here⟩

/-- An entry of the report is the verdict on the relationship of that identifier. -/
theorem mem_reconciled_iff_settles (consistent : p.Consistent) (known : rs ⊆ p.relationships)
    (member : r ∈ p.relationships) (passed : outcome ≠ .skipped) :
    (r.id, outcome) ∈ (reconcileAll policy table now rs p).1 ↔
      Settles policy table now rs p r outcome := by
  rw [mem_reconciled_iff passed]
  refine ⟨?_, fun settles => ⟨r, rfl, settles⟩⟩
  rintro ⟨s, same, settles⟩
  exact List.inj_on_of_nodup_map consistent.relationships (known settles.mem) member same ▸ settles

/-! ### What verdicts come to -/

/-- A relationship goes exactly when a field that it touches is removed. -/
theorem mem_relationships_reconcileAll :
    s ∈ (reconcileAll policy table now rs p).2.relationships ↔
      s ∈ p.relationships ∧
        ∀ r, Settles policy table now rs p r .removed → ¬ s.touchesField r.dependent := by
  induction rs generalizing p with
  | nil => simp [reconcileAll, settles_nil]
  | cons r rest ih =>
    have first : s ∈ (reconcileAll policy table now [r] p).2.relationships ↔
        s ∈ p.relationships ∧ (r.dependent.table ≠ table ∧ p.verdict policy r = .removed →
          ¬ s.touchesField r.dependent) := by
      rw [reconcileAll_singleton]
      by_cases inside : r.dependent.table = table
      · simp [inside]
      · by_cases removed : p.verdict policy r = .removed <;>
          simp [inside, removed, reconcile_relationships]
    rw [reconcileAll_cons, ih, first, and_assoc]
    simp only [settles_cons, or_imp, forall_and, and_imp, forall_eq]

/-- A field outside the deleted table goes exactly when a relationship on it is settled so. -/
theorem field?_reconcileAll_eq_none_iff (present : (p.field? r.dependent).isSome)
    (outside : r.dependent.table ≠ table) :
    (reconcileAll policy table now rs p).2.field? r.dependent = none ↔
      ∃ s, s.dependent = r.dependent ∧ Settles policy table now rs p s .removed := by
  rw [reconcileAll_gone_iff present outside]
  constructor
  · rintro ⟨before, s, after, split, same, removed⟩
    exact ⟨s, same, before, after, split, same ▸ outside, removed⟩
  · rintro ⟨s, same, before, after, split, _, removed⟩
    exact ⟨before, s, after, split, same, removed⟩

theorem reference_reconcile {l : Location} (plain : ∀ f, p.field? l = some f → f.reference = none) :
    ∀ f, (p.reconcile policy r now).2.field? l = some f → f.reference = none := by
  intro f found
  rw [field?_reconcile] at found
  split at found
  · split at found
    · contradiction
    · obtain ⟨g, before, rfl⟩ := Option.map_eq_some_iff.mp found
      exact Field.detachWhen_plain (plain g before)
  · split at found
    · obtain ⟨g, _, rfl⟩ := Option.map_eq_some_iff.mp found
      rfl
    · exact plain f found
  all_goals exact plain f found

/-- A detached field never refers to anything again. -/
theorem Settles.plain (settles : Settles policy table now rs p r .detached) :
    ∀ f, (reconcileAll policy table now rs p).2.field? r.dependent = some f →
      f.reference = none := by
  obtain ⟨before, after, rfl, outside, verdict⟩ := settles
  rw [reconcileAll_append, reconcileAll_cons, reconcileAll_singleton, if_neg outside]
  refine reconcileAll_induct
    (motive := fun q => ∀ f, q.field? r.dependent = some f → f.reference = none)
    (fun _ _ _ _ plain => reference_reconcile plain) fun f found => ?_
  rw [field?_reconcile, verdict] at found
  simp only [if_true] at found
  obtain ⟨g, _, rfl⟩ := Option.map_eq_some_iff.mp found
  rfl

/-! ### The report -/

theorem touching_subset : p.touching table ⊆ p.relationships :=
  List.filter_subset_self _

theorem id_mem_touching_iff (consistent : p.Consistent) (member : r ∈ p.relationships) :
    r.id ∈ (p.touching table).map (·.id) ↔ r.touchesTable table := by
  refine ⟨fun listed => ?_, fun touches => ?_⟩
  · exact (List.mem_filter.mp (mem_of_id_mem consistent touching_subset member listed)).2
  · exact List.mem_map_of_mem (List.mem_filter.mpr ⟨member, touches⟩)

/-- The relationships that are left touch neither the table nor a field that was removed. -/
theorem mem_relationships_dropTable (consistent : p.Consistent) (member : r ∈ p.relationships) :
    r.id ∈ ((reconcileAll policy table now (p.touching table) p).2.dropTable table
        ((p.touching table).map (·.id)) now).relationships.map (·.id) ↔
      ¬ r.touchesTable table ∧
        ∀ s, Settles policy table now (p.touching table) p s .removed →
          ¬ r.touchesField s.dependent := by
  have fewer : (reconcileAll policy table now (p.touching table) p).2.relationships ⊆
      p.relationships := reconcileAll_sublist.subset
  rw [dropTable_relationships fun s inside => (id_mem_touching_iff consistent (fewer inside)).mp]
  constructor
  · intro listed
    have inside := mem_of_id_mem consistent
      (List.Subset.trans (List.filter_subset_self _) fewer) member listed
    obtain ⟨left, apart⟩ := List.mem_filter.mp inside
    exact ⟨by simpa using apart, (mem_relationships_reconcileAll.mp left).2⟩
  · rintro ⟨apart, spared⟩
    have left := mem_relationships_reconcileAll.mpr ⟨member, spared⟩
    exact List.mem_map_of_mem (List.mem_filter.mpr ⟨left, by simpa using apart⟩)

theorem deleteTable_accounts (consistent : p.Consistent) (policy : OriginPolicy)
    (present : (p.table? table).isSome) (now : Timestamp) :
    ∃ d q, p.deleteTable policy table now = .ok (d, q) ∧ d.Accounts p q := by
  obtain ⟨t, deleted⟩ := deleteTable_eq policy now present
  have reported : ∀ r ∈ p.relationships, ∀ outcome, outcome ≠ .skipped →
      ((r.id, outcome) ∈ (reconcileAll policy table now (p.touching table) p).1 ↔
        Settles policy table now (p.touching table) p r outcome) :=
    fun r member outcome passed =>
      mem_reconciled_iff_settles consistent touching_subset member passed
  have keyed := (consistent.reconcileAll policy table now (p.touching table)).toKeyed
  refine ⟨_, _, deleted, ?_⟩
  constructor
  case once => exact consistent.relationships.sublist (List.filter_sublist.map _)
  case entries => exact reconciled_ids
  case known => exact fun id listed => List.map_subset _ touching_subset listed
  case gone =>
    intro r member
    rw [mem_relationships_dropTable consistent member, id_mem_touching_iff consistent member]
    constructor
    · intro lost
      by_cases touches : r.touchesTable table
      · exact .inl touches
      · refine .inr (by_contra fun spared => lost ⟨touches, fun s removes on => spared ?_⟩)
        have inside := touching_subset removes.mem
        exact ⟨s, inside, (reported s inside _ (by decide)).mpr removes, on⟩
    · rintro (touches | ⟨s, inside, removed, on⟩) ⟨apart, spared⟩
      · exact apart touches
      · exact spared s ((reported s inside _ (by decide)).mp removed) on
  case removed =>
    intro r member removed
    have settles := (reported r member _ (by decide)).mp removed
    have there := (consistent.endpoint member).2.2
    rw [field?_dropTable keyed, if_neg settles.outside,
      (field?_reconcileAll_eq_none_iff there settles.outside).mpr ⟨r, rfl, settles⟩,
      Option.map_none]
  case detached =>
    intro r member detached
    have settles := (reported r member _ (by decide)).mp detached
    have there := (consistent.endpoint member).2.2
    rw [field?_dropTable keyed, if_neg settles.outside, Option.map_eq_none_iff,
      field?_reconcileAll_eq_none_iff there settles.outside]
    refine ⟨⟨?_, ?_⟩, fun f remains => ?_⟩
    · rintro ⟨s, same, removes⟩
      have inside := touching_subset removes.mem
      exact ⟨s, inside, (reported s inside _ (by decide)).mpr removes, same⟩
    · rintro ⟨s, inside, removed, same⟩
      exact ⟨s, same, (reported s inside _ (by decide)).mp removed⟩
    · obtain ⟨g, before, rfl⟩ := Option.map_eq_some_iff.mp remains
      exact Field.detachWhen_plain (settles.plain g before)

/-- The deletion of a table that exists reports every relationship that touches it. The report is
faithful exactly if it lists all relationships that touch a field that it calls removed, and calls no
such field detached as well. -/
theorem deleteTable_faithful_iff (consistent : p.Consistent) (policy : OriginPolicy)
    (present : (p.table? table).isSome) (now : Timestamp) :
    ∃ d q, p.deleteTable policy table now = .ok (d, q) ∧ d.Accounts p q ∧
      (d.Faithful p q ↔ ∀ r ∈ p.relationships, (r.id, .removed) ∈ d.reconciled →
        ∀ s ∈ p.relationships, (s.touchesField r.dependent → s.id ∈ d.relationships) ∧
          ((s.id, .detached) ∈ d.reconciled → s.dependent ≠ r.dependent)) := by
  obtain ⟨d, q, deleted, accounts⟩ := deleteTable_accounts consistent policy present now
  exact ⟨d, q, deleted, accounts, accounts.faithful_iff⟩

theorem keyChain_faithful :
    ∃ d q, keyChain.deleteTable .nameMatch "S" newYear = .ok (d, q) ∧
      d.reconciled = [("RS", .skipped), ("ST", .removed)] ∧ d.Faithful keyChain q := by
  have consistent : keyChain.Consistent := inconsistencies_eq_nil_iff.mp rfl
  have present : (keyChain.table? "S").isSome := rfl
  obtain ⟨d, q, deleted, _, faithful⟩ :=
    deleteTable_faithful_iff consistent .nameMatch present newYear
  obtain ⟨rfl, _⟩ := Prod.mk.inj (Except.ok.inj (deleted.symm.trans rfl))
  refine ⟨_, q, deleted, rfl, faithful.mpr ?_⟩
  decide

/-- With the key of stores goes the relationship from stores to sales, which is not reported; and a
key that was detached goes with the second relationship on it. -/
theorem deleteTable_unfaithful :
    (∃ d q, keyChain.inconsistencies = [] ∧
      keyChain.deleteTable .nameMatch "R" newYear = .ok (d, q) ∧ ¬ d.Faithful keyChain q ∧
        d.relationships = ["RS"] ∧ q.relationships = []) ∧
      ∃ d q, twiceConnected.inconsistencies = [] ∧
        twiceConnected.deleteTable .explicit "T" newYear = .ok (d, q) ∧
          ("R1", .detached) ∈ d.reconciled ∧ q.field? ⟨"U", "G"⟩ = none := by
  refine ⟨⟨_, _, rfl, rfl, fun faithful => ?_, rfl, rfl⟩, _, _, rfl, rfl, by decide, rfl⟩
  have missing := (faithful.gone "ST").mpr ⟨by decide, by decide⟩
  revert missing
  decide

end Project
end LakeSchema
