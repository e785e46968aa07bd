import LakeSchema.Proofs.Edit.Reconciliation

/-!
# Independent foreign keys when a table is deleted

An independent foreign key outlives the key it refers to as a plain field. But detaching it erases
its origin, so a second relationship on the same field goes by names: `deleteTable_loses_iff` says
exactly when that removes the field after all, and `not_fallsBackToNames` that it takes a second
relationship.
-/

namespace LakeSchema

/-! ### One field during a deletion -/

namespace Field

variable {g : Field}

/-- A field as it was, or as a plain field, or gone. -/
inductive Remains (g : Field) : Option Field → Prop where
  | kept : Remains g (some g)
  | detached : Remains g (some g.detach)
  | gone : Remains g none

theorem Remains.map_detach {found : Option Field} (remains : Remains g found) :
    Remains g (found.map detach) := by
  cases remains with
  | kept | detached => exact .detached
  | gone => exact .gone

theorem Remains.map_detachWhen {found : Option Field} (remains : Remains g found)
    (condition : Field → Bool) : Remains g (found.map (detachWhen condition)) := by
  cases remains with
  | kept =>
    rw [Option.map_some, detachWhen]
    split
    · exact .detached
    · exact .kept
  | detached =>
    rw [Option.map_some, detachWhen_detach]
    exact .detached
  | gone => exact .gone

/-- A field that is still there keeps its identifier and name, and is a plain field once it meets
the condition for being detached. -/
theorem Remains.detachWhen {f : Field} (remains : Remains g (some f)) (condition : Field → Bool) :
    (f.detachWhen condition).id = g.id ∧ (f.detachWhen condition).name = g.name ∧
      (condition g → (f.detachWhen condition).reference = none ∧
        (f.detachWhen condition).isForeignKey = false) := by
  cases remains with
  | kept =>
    refine ⟨detachWhen_id, detachWhen_name, fun met => ?_⟩
    rw [Field.detachWhen, if_pos met]
    exact ⟨rfl, rfl⟩
  | detached =>
    rw [detachWhen_detach]
    exact ⟨rfl, rfl, fun _ => ⟨rfl, rfl⟩⟩

end Field

namespace Project

variable {p : Project} {policy : OriginPolicy} {r : Relationship} {l : Location} {now : Timestamp}
  {table : String} {rs : List Relationship} {g : Field}

theorem reconcile_remains (remains : g.Remains (p.field? l)) :
    g.Remains ((p.reconcile policy r now).2.field? l) := by
  rw [field?_reconcile]
  split
  · split
    · exact .gone
    · exact remains.map_detachWhen _
  · split
    · exact remains.map_detach
    · exact remains
  · exact remains
  · exact remains
  · exact remains

theorem reconcileAll_remains (remains : g.Remains (p.field? l)) :
    g.Remains ((reconcileAll policy table now rs p).2.field? l) :=
  reconcileAll_induct (motive := fun q => g.Remains (q.field? l))
    (fun _ _ _ _ remains => reconcile_remains remains) remains

theorem reconcileAll_gone (gone : p.field? l = none) :
    (reconcileAll policy table now rs p).2.field? l = none :=
  reconcileAll_induct (motive := fun q => q.field? l = none) (fun _ _ _ _ gone => reconcile_gone gone)
    gone

/-- Settling one relationship takes a field away exactly when it is the dependent field of a
relationship that removes it. -/
theorem reconcile_gone_iff (present : (p.field? l).isSome) :
    (p.reconcile policy r now).2.field? l = none ↔
      r.dependent = l ∧ p.verdict policy r = .removed := by
  have there : p.field? l ≠ none := Option.isSome_iff_ne_none.mp present
  rw [field?_reconcile]
  split
  · rename_i removed
    by_cases same : l = r.dependent
    · simp [same, removed]
    · simp [same, there, Ne.symm same]
  · rename_i kept
    have stays : (if l = r.dependent then (p.field? l).map Field.detach else p.field? l) ≠ none := by
      split <;> simp [there]
    simp [kept, stays]
  all_goals
    rename_i kept
    simp [kept, there]

/-- A field is gone after many relationships exactly when one of them removed it in its turn. -/
theorem reconcileAll_gone_iff (present : (p.field? l).isSome) (elsewhere : l.table ≠ table) :
    (reconcileAll policy table now rs p).2.field? l = none ↔
      ∃ before r after, rs = before ++ r :: after ∧ r.dependent = l ∧
        (reconcileAll policy table now before p).2.verdict policy r = .removed := by
  induction rs generalizing p with
  | nil =>
    constructor
    · intro gone
      rw [show p.field? l = none from gone] at present
      contradiction
    · rintro ⟨before, r, after, split, _⟩
      simp at split
  | cons r rest ih =>
    have first : (reconcileAll policy table now [r] p).2.field? l = none ↔
        r.dependent = l ∧ p.verdict policy r = .removed := by
      rw [reconcileAll_singleton]
      split
      · rename_i inside
        have other : r.dependent ≠ l := fun same => elsewhere (same ▸ inside)
        simp [other, Option.isSome_iff_ne_none.mp present]
      · exact reconcile_gone_iff present
    rw [reconcileAll_cons]
    by_cases gone : (reconcileAll policy table now [r] p).2.field? l = none
    · exact ⟨fun _ => ⟨[], r, rest, rfl, first.mp gone⟩, fun _ => reconcileAll_gone gone⟩
    · rw [ih (Option.isSome_iff_ne_none.mpr gone)]
      constructor
      · rintro ⟨before, u, after, rfl, removed⟩
        refine ⟨r :: before, u, after, rfl, ?_⟩
        rwa [reconcileAll_cons]
      · rintro ⟨before, u, after, split, removed⟩
        cases before with
        | nil =>
          obtain ⟨rfl, rfl⟩ := List.cons.inj split
          exact (gone (first.mpr removed)).elim
        | cons v before =>
          obtain ⟨rfl, rfl⟩ := List.cons.inj split
          refine ⟨before, u, after, rfl, ?_⟩
          rwa [reconcileAll_cons] at removed

/-! ### Independent keys -/

/-- A recorded independent origin keeps a field from being removed. -/
theorem verdict_ne_removed (found : p.field? r.dependent = some g)
    (independent : g.origin = some .independent) : p.verdict .explicit r ≠ .removed := by
  by_cases elsewhere : ∃ reference, g.reference = some reference ∧ reference.target ≠ r.source
  · obtain ⟨reference, refers, apart⟩ := elsewhere
    simp [verdict_of_elsewhere found refers apart]
  · have tied : ∀ reference, g.reference = some reference → reference.target = r.source := by
      intro reference refers
      by_contra apart
      exact elsewhere ⟨reference, refers, apart⟩
    simp [verdict_of_tied found tied, Field.originUnder, independent]

/-- A detached field has no origin left, so that names decide. -/
theorem verdict_detached (found : p.field? r.dependent = some g.detach) :
    p.verdict policy r = .removed ↔ (p.field? r.source).map (·.name) = some g.name := by
  have tied : ∀ reference, g.detach.reference = some reference → reference.target = r.source :=
    nofun
  have byName : g.detach.originUnder policy ((p.field? r.source).map (·.name)) =
      g.detach.originByName ((p.field? r.source).map (·.name)) := by
    cases policy <;> rfl
  have name : g.detach.name = g.name := rfl
  rw [verdict_of_tied found tied, byName, Field.originByName, name]
  by_cases same : (p.field? r.source).map (·.name) = some g.name <;> simp [same]

/-- The dependent field of a relationship, once an independent foreign key, is removed exactly when it
is detached already and bears the name of the source. -/
theorem verdict_removed_iff {found : Option Field} (remains : g.Remains found)
    (there : p.field? r.dependent = found) (independent : g.origin = some .independent)
    (refers : g.reference ≠ none) :
    p.verdict .explicit r = .removed ↔
      (∃ f, p.field? r.dependent = some f ∧ f.reference = none) ∧
        (p.field? r.source).map (·.name) = some g.name := by
  cases remains with
  | kept =>
    refine ⟨fun removed => (verdict_ne_removed there independent removed).elim, ?_⟩
    rintro ⟨⟨f, here, plain⟩, _⟩
    obtain rfl := Option.some_inj.mp (there.symm.trans here)
    exact (refers plain).elim
  | detached =>
    rw [verdict_detached there]
    exact ⟨fun named => ⟨⟨_, there, rfl⟩, named⟩, And.right⟩
  | gone =>
    rw [verdict_eq_missing_iff.mpr there]
    simp [there]

/-- Among the relationships that the deletion of a table settles, one on the field finds it without
a reference already and has a source of the field's name. -/
def FallsBackToNames (p : Project) (table : String) (now : Timestamp) (l : Location)
    (name : String) : Prop :=
  ∃ before r after, p.touching table = before ++ r :: after ∧
    r.dependent = l ∧
    let settled := (reconcileAll .explicit table now before p).2
    (∃ f, settled.field? l = some f ∧ f.reference = none) ∧
      (settled.field? r.source).map (·.name) = some name

/-- An independent key into the deleted table keeps to its origin unless several relationships share
it. -/
theorem not_fallsBackToNames {reference : Reference} {name : String} (found : p.field? l = some g)
    (refers : g.reference = some reference) (into : reference.target.table = table)
    (single : (p.touching table).Pairwise fun r s => r.dependent = l → s.dependent ≠ l) :
    ¬ p.FallsBackToNames table now l name := by
  rintro ⟨before, r, after, split, same, ⟨f, detached, plain⟩, _⟩
  rw [split] at single
  have others : ∀ s ∈ before, s.dependent ≠ l := fun s member shared =>
    (List.pairwise_append.mp single).2.2 s member r (List.mem_cons_self ..) shared same
  have intact : (reconcileAll .explicit table now before p).2.field? l = some g := by
    refine reconcileAll_induct (motive := fun q => q.field? l = some g)
      (fun q s member away intact => ?_) found
    have apart : g.detachWhen (·.refersTo s.dependent) = g := by
      refine if_neg ?_
      rw [Bool.not_eq_true, refersTo_eq_false_iff]
      intro held holds target
      obtain rfl := Option.some_inj.mp (refers.symm.trans holds)
      exact away (target ▸ into)
    rw [field?_reconcile, intact]
    split <;> simp [Ne.symm (others s member), apart]
  rw [intact, Option.some_inj] at detached
  rw [← detached, refers] at plain
  contradiction

/-- Settling the relationships that touch another table takes an independent key away exactly when
its origin is judged by names after it was erased. -/
theorem reconcileAll_loses_iff (elsewhere : l.table ≠ table) (found : p.field? l = some g)
    (independent : g.origin = some .independent) (refers : g.reference ≠ none) :
    (reconcileAll .explicit table now (p.touching table) p).2.field? l = none ↔
      p.FallsBackToNames table now l g.name := by
  have start : g.Remains (p.field? l) := by
    rw [found]
    exact .kept
  have judged (before : List Relationship) (r : Relationship) (same : r.dependent = l) :=
    verdict_removed_iff (p := (reconcileAll .explicit table now before p).2)
      (reconcileAll_remains start) (by rw [same]) independent refers
  rw [reconcileAll_gone_iff (by rw [found]; rfl) elsewhere]
  constructor
  · rintro ⟨before, r, after, split, same, removed⟩
    exact ⟨before, r, after, split, same, same ▸ (judged before r same).mp removed⟩
  · rintro ⟨before, r, after, split, same, detached⟩
    refine ⟨before, r, after, split, same, (judged before r same).mpr ?_⟩
    rwa [same]

/-- The deletion of another table takes an independent foreign key away exactly when the origin is
judged by names after it was erased. Else the field is kept under its identifier and name, as a
plain field if it referred into the deleted table. -/
theorem deleteTable_loses_iff {reference : Reference} (consistent : p.Consistent)
    (present : (p.table? table).isSome) (elsewhere : l.table ≠ table) (found : p.field? l = some g)
    (independent : g.origin = some .independent) (refers : g.reference = some reference)
    (now : Timestamp) :
    ∃ deletion q, p.deleteTable .explicit table now = .ok (deletion, q) ∧
      (q.field? l = none ↔ p.FallsBackToNames table now l g.name) ∧
      ∀ f, q.field? l = some f → f.id = g.id ∧ f.name = g.name ∧
        (reference.target.table = table → f.reference = none ∧ f.isForeignKey = false) := by
  obtain ⟨t, deleted⟩ := deleteTable_eq .explicit now present
  have keyed := (consistent.reconcileAll .explicit table now (p.touching table)).toKeyed
  refine ⟨_, _, deleted, ?_, fun f remains => ?_⟩
  · rw [field?_dropTable keyed, if_neg elsewhere, Option.map_eq_none_iff,
      reconcileAll_loses_iff elsewhere found independent (by simp [refers])]
  · rw [field?_dropTable keyed, if_neg elsewhere, Option.map_eq_some_iff] at remains
    obtain ⟨h, settled, rfl⟩ := remains
    have state : g.Remains (some h) := by
      rw [← settled]
      exact reconcileAll_remains (found ▸ .kept)
    obtain ⟨id, name, plain⟩ := state.detachWhen (·.refersInto table)
    refine ⟨id, name, fun into => plain ?_⟩
    simpa [Field.refersInto, refers, Reference.target] using into

/-- Two relationships connect the key of sales with the same independent field of orders, which has
the name of the key. -/
def twiceConnected : Project :=
  { empty "P" "shop" "main" "sales" newYear with
    tables :=
      [ { Table.plain "T" "sales" newYear with
          fields := [(Field.plain "K" "key" .int).asPrimaryKey] },
        { Table.plain "U" "orders" newYear with
          fields := [(Field.plain "G" "key" .int).attach (.ofTarget ⟨"T", "K"⟩) .independent] } ]
    relationships :=
      [.between "R1" ⟨"T", "K"⟩ ⟨"U", "G"⟩ newYear, .between "R2" ⟨"T", "K"⟩ ⟨"U", "G"⟩ newYear] }

theorem twiceConnected_loses_key :
    twiceConnected.inconsistencies = [] ∧
      (∃ g, twiceConnected.field? ⟨"U", "G"⟩ = some g ∧ g.origin = some .independent ∧
        g.reference.isSome) ∧
      ∃ deletion q, twiceConnected.deleteTable .explicit "T" newYear = .ok (deletion, q) ∧
        q.field? ⟨"U", "G"⟩ = none :=
  ⟨rfl, ⟨_, rfl, rfl, rfl⟩, _, _, rfl, rfl⟩

theorem twiceConnected_falls_back :
    ∃ deletion q, twiceConnected.deleteTable .explicit "T" newYear = .ok (deletion, q) ∧
      (q.field? ⟨"U", "G"⟩ = none ↔
        twiceConnected.FallsBackToNames "T" newYear ⟨"U", "G"⟩ "key") := by
  have consistent : twiceConnected.Consistent := inconsistencies_eq_nil_iff.mp rfl
  have present : (twiceConnected.table? "T").isSome := rfl
  obtain ⟨deletion, q, deleted, lost, _⟩ :=
    deleteTable_loses_iff (l := ⟨"U", "G"⟩) consistent present (by decide) rfl rfl rfl newYear
  exact ⟨deletion, q, deleted, lost⟩

end Project
end LakeSchema
