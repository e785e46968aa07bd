import LakeSchema.Proofs.Edit.BulkDeletion
import LakeSchema.Proofs.Edit.IndependentKey

/-!
# Deleting two relationships in either order

Settling a relationship changes each field on its own (`undatedTables_reconcile_eq`), and the changes
for two dependent fields commute (`effect_comm`). So two relationships without a common end can be
deleted in either order, unless the first deletion removes the key that the dependent field of the
second refers to: this erases what the field refers to and its origin, and names decide the second
deletion. `deleteBoth_comm_iff` says when the order matters.
-/

namespace LakeSchema

variable {r s : Relationship} {l m d e : Location} {f g : Field} {v w : Reconciliation}

namespace Relationship

/-- No field is an end of both relationships. -/
def Apart (r s : Relationship) : Prop :=
  ∀ l, r.touchesField l → ¬ s.touchesField l

theorem touchesField_source (r : Relationship) : r.touchesField r.source := by
  simp [touchesField]

theorem touchesField_dependent (r : Relationship) : r.touchesField r.dependent := by
  simp [touchesField]

theorem Apart.symm (apart : r.Apart s) : s.Apart r :=
  fun l theirs ours => apart l ours theirs

theorem Apart.dependent_ne (apart : r.Apart s) : s.dependent ≠ r.dependent :=
  fun same => apart _ r.touchesField_dependent (same ▸ s.touchesField_dependent)

theorem Apart.source_ne (apart : r.Apart s) : s.source ≠ r.dependent :=
  fun same => apart _ r.touchesField_dependent (same ▸ s.touchesField_source)

end Relationship

/-! ### Settling field by field -/

namespace Field

theorem detach_detachWhen (condition : Field → Bool) (f : Field) :
    (f.detachWhen condition).detach = f.detach := by
  unfold detachWhen
  split <;> rfl

theorem detachWhen_comm (first second : Field → Bool) (f : Field) :
    (f.detachWhen first).detachWhen second = (f.detachWhen second).detachWhen first := by
  have either : ∀ condition : Field → Bool, f.detachWhen condition = f.detach ∨
      condition f = false ∧ f.detachWhen condition = f := by
    intro condition
    cases met : condition f with
    | true => exact .inl (if_pos met)
    | false => exact .inr ⟨rfl, if_neg (by simp [met])⟩
  rcases either first with one | ⟨_, one⟩ <;> rcases either second with two | ⟨_, two⟩ <;>
    simp only [one, two, detachWhen_detach]

end Field

namespace Reconciliation

/-- What becomes of a field when a dependent field is settled. -/
def effect (v : Reconciliation) (dependent l : Location) (f : Field) : Option Field :=
  match v with
  | .removed => if l = dependent then none else some (f.detachWhen (·.refersTo dependent))
  | .detached => some (if l = dependent then f.detach else f)
  | .untouched | .missing | .skipped => some f

theorem effect_id (changed : v.effect d l f = some g) : g.id = f.id := by
  cases v with
  | removed =>
    rw [effect] at changed
    split at changed
    · contradiction
    · rw [← Option.some.inj changed, Field.detachWhen_id]
  | detached =>
    rw [← Option.some.inj changed]
    split <;> rfl
  | untouched | missing | skipped => rw [← Option.some.inj changed]

/-- The effects on two fields do not get into each other's way. -/
theorem effect_comm (apart : d ≠ e) (v w : Reconciliation) (l : Location) (f : Field) :
    (v.effect d l f).bind (w.effect e l) = (w.effect e l f).bind (v.effect d l) := by
  by_cases first : l = d
  · have second : l ≠ e := fun same => apart (first.symm.trans same)
    cases v <;> cases w <;> simp [effect, first, apart, Field.detachWhen_detach, Field.detach_detachWhen]
  · by_cases second : l = e
    · cases v <;> cases w <;>
        simp [effect, second, Ne.symm apart, Field.detachWhen_detach, Field.detach_detachWhen]
    · cases v <;> cases w <;> simp [effect, first, second]
      exact Field.detachWhen_comm _ _ f

/-- A field that loses its key when that is removed is as good as detached. -/
theorem effect_detached_of_refersTo (refers : f.refersTo d = true) (apart : e ≠ d) :
    (removed.effect d e f).bind (detached.effect e e) = (some f).bind (removed.effect d e) := by
  simp [effect, apart, Field.detachWhen, refers, Field.detach]

end Reconciliation

/-- The table with the fields that a change leaves of it. -/
def Table.refit (change : Location → Field → Option Field) (t : Table) : Table :=
  { t with fields := t.fields.filterMap fun f => change ⟨t.id, f.id⟩ f }

theorem Table.refit_refit {first second : Location → Field → Option Field}
    (keeps : ∀ {l f g}, first l f = some g → g.id = f.id) (t : Table) :
    (t.refit first).refit second = t.refit fun l f => (first l f).bind (second l) := by
  have each : ∀ f, ((first ⟨t.id, f.id⟩ f).bind fun g => second ⟨t.id, g.id⟩ g) =
      (first ⟨t.id, f.id⟩ f).bind (second ⟨t.id, f.id⟩) := by
    intro f
    cases changed : first ⟨t.id, f.id⟩ f with
    | none => rfl
    | some g => rw [Option.bind_some, Option.bind_some, keeps changed]
  simp only [refit, List.filterMap_filterMap, each]

namespace Project

variable {p q : Project} {policy : OriginPolicy} {now later : Timestamp}

theorem undatedTables_keyed (keyed : p.Keyed) :
    (p.undatedTables.map (·.id)).Nodup ∧
      ∀ t ∈ p.undatedTables, (t.fields.map (·.id)).Nodup := by
  refine ⟨?_, fun t member => ?_⟩
  · rw [undatedTables, List.map_map]
    exact keyed.tables
  · obtain ⟨u, present, rfl⟩ := List.mem_map.mp member
    exact keyed.fields u present

/-- Removing a field comes down to its effect on each field. -/
theorem loosen_eq_refit (l : Location) (t : Table) :
    (if t.id = l.table then { t with fields := t.fields.filter (·.id != l.field) } else t).loosen
      (·.refersTo l) = t.refit (Reconciliation.removed.effect l) := by
  obtain ⟨table, field⟩ := l
  by_cases inside : t.id = table
  · have there : ∀ f : Field, (Location.mk t.id f.id = ⟨table, field⟩) = (f.id = field) := by
      simp [inside]
    simp only [if_pos inside, Table.loosen, Table.refit, Reconciliation.effect, there,
      ← List.filterMap_eq_map, List.filterMap_filter]
    congr 2
    funext f
    by_cases here : f.id = field <;> simp [here]
  · simp [inside, Table.loosen, Table.refit, Reconciliation.effect]

theorem detach_eq_refit (l : Location) {t : Table} (distinct : (t.fields.map (·.id)).Nodup) :
    (if t.id = l.table then
      { t with fields := updateFirst (·.id == l.field) Field.detach t.fields } else t) =
      t.refit (Reconciliation.detached.effect l) := by
  obtain ⟨table, field⟩ := l
  rw [updateFirst_eq_map distinct]
  by_cases inside : t.id = table
  · simp [inside, Table.refit, Reconciliation.effect]
  · simp [inside, Table.refit, Reconciliation.effect]

/-- Settling a relationship comes down to its effect on each field. -/
theorem undatedTables_reconcile_eq (keyed : p.Keyed) (policy : OriginPolicy) (r : Relationship)
    (now : Timestamp) :
    (p.reconcile policy r now).2.undatedTables =
      p.undatedTables.map (Table.refit ((p.verdict policy r).effect r.dependent)) := by
  obtain ⟨tables, fields⟩ := undatedTables_keyed keyed
  have idle : (Table.refit fun _ f => some f) = fun t => t := by
    funext t
    simp [Table.refit]
  unfold reconcile
  cases p.verdict policy r with
  | removed =>
    change (p.purgeField r.dependent now).undatedTables = _
    rw [undatedTables_purgeField, updateFirst_eq_map tables, List.map_map]
    exact List.map_congr_left fun t _ => loosen_eq_refit r.dependent t
  | detached =>
    change (p.detachField r.dependent now).undatedTables = _
    rw [undatedTables_detachField, updateFirst_eq_map tables]
    exact List.map_congr_left fun t member => detach_eq_refit r.dependent (fields t member)
  | untouched | missing | skipped =>
    change p.undatedTables = p.undatedTables.map (Table.refit fun _ f => some f)
    rw [idle, List.map_id']

/-! ### The second deletion -/

/-- Deletes two relationships one after the other. -/
def deleteBoth (p : Project) (policy : OriginPolicy) (first second : String)
    (now later : Timestamp) : Except SchemaError Project := do
  let (_, half) ← p.deleteRelationship policy first now
  let (_, whole) ← half.deleteRelationship policy second later
  pure whole

theorem cut_relationships :
    (p.cut policy r now).relationships = p.relationships.filter fun u =>
      u.id != r.id && !(p.verdict policy r = .removed && u.touchesField r.dependent) := by
  rw [cut, reconcile_relationships]
  by_cases removed : p.verdict policy r = .removed <;> simp [removed, List.filter_filter]

/-- Deleting a relationship removes the key that the dependent field of another one refers to. -/
def Bereaves (p : Project) (policy : OriginPolicy) (r s : Relationship) : Prop :=
  p.verdict policy r = .removed ∧
    ∃ f, p.field? s.dependent = some f ∧ f.refersTo r.dependent = true

/-- And the name of that field is the one of the source of its relationship. -/
def Overrules (p : Project) (policy : OriginPolicy) (r s : Relationship) : Prop :=
  p.verdict policy r = .removed ∧
    ∃ f, p.field? s.dependent = some f ∧ f.refersTo r.dependent = true ∧
      (p.field? s.source).map (·.name) = some f.name

theorem field?_cut (apart : l ≠ r.dependent) :
    (p.cut policy r now).field? l =
      if p.verdict policy r = .removed then
        (p.field? l).map (Field.detachWhen (·.refersTo r.dependent))
      else p.field? l := by
  change (p.reconcile policy r now).2.field? l = _
  rw [field?_reconcile]
  cases p.verdict policy r <;> simp [apart]

theorem name_cut (apart : l ≠ r.dependent) :
    ((p.cut policy r now).field? l).map (·.name) = (p.field? l).map (·.name) := by
  rw [field?_cut apart]
  split
  · simp [Option.map_map, Function.comp_def, Field.detachWhen_name]
  · rfl

/-- A relationship that is not bereaved is settled as if the other one were still there. -/
theorem verdict_cut (apart : r.Apart s) (kept : ¬ p.Bereaves policy r s) :
    (p.cut policy r now).verdict policy s = p.verdict policy s := by
  have dependent : (p.cut policy r now).field? s.dependent = p.field? s.dependent := by
    rw [field?_cut apart.dependent_ne]
    split
    · rename_i removed
      cases found : p.field? s.dependent with
      | none => rfl
      | some f =>
        have elsewhere : ¬ f.refersTo r.dependent = true := fun refers =>
          kept ⟨removed, f, found, refers⟩
        rw [Option.map_some, Field.detachWhen, if_neg elsewhere]
    · rfl
  simp only [verdict, dependent, name_cut apart.source_ne]

/-- A bereaved relationship has nothing to settle at first and is settled by names later. -/
theorem verdict_of_bereaves (apart : r.Apart s) (bereaved : p.Bereaves policy r s)
    (now : Timestamp) :
    p.verdict policy s = .untouched ∧
      ((p.cut policy r now).verdict policy s = .removed ∧ p.Overrules policy r s ∨
        (p.cut policy r now).verdict policy s = .detached ∧ ¬ p.Overrules policy r s) := by
  obtain ⟨removed, f, found, refers⟩ := bereaved
  obtain ⟨reference, held, target⟩ := (Option.any_eq_true _ _).mp refers
  have elsewhere : reference.target ≠ s.source := fun same =>
    apart.source_ne (same.symm.trans (by simpa using target))
  refine ⟨verdict_of_elsewhere found held elsewhere, ?_⟩
  have plain : (p.cut policy r now).field? s.dependent = some f.detach := by
    rw [field?_cut apart.dependent_ne, if_pos removed, found, Option.map_some, Field.detachWhen,
      if_pos refers]
  have names : (p.cut policy r now).verdict policy s = .removed ↔
      (p.field? s.source).map (·.name) = some f.name := by
    rw [verdict_detached plain, name_cut apart.source_ne]
  by_cases named : (p.field? s.source).map (·.name) = some f.name
  · exact .inl ⟨names.mpr named, removed, f, found, refers, named⟩
  · refine .inr ⟨?_, ?_⟩
    · have other : (p.cut policy r now).verdict policy s ≠ .removed := mt names.mp named
      have free : ∀ reference, f.detach.reference = some reference →
          reference.target = s.source :=
        fun _ held => (Option.some_ne_none _ held.symm).elim
      rw [verdict_of_tied plain free] at other ⊢
      split at other
      · exact (other rfl).elim
      · rfl
    · rintro ⟨_, g, there, _, same⟩
      rw [found, Option.some_inj] at there
      exact named (there ▸ same)

/-- Only one of two relationships can be bereaved by the other. -/
theorem Bereaves.asymm (apart : r.Apart s) (bereaved : p.Bereaves policy r s) :
    ¬ p.Bereaves policy s r := by
  intro ⟨removed, _⟩
  rw [(verdict_of_bereaves apart bereaved p.updatedAt).1] at removed
  contradiction

theorem deleteBoth_eq (consistent : p.Consistent) (first : r ∈ p.relationships)
    (second : s ∈ p.relationships) (apart : r.Apart s) (policy : OriginPolicy)
    (now later : Timestamp) :
    p.deleteBoth policy r.id s.id now later = .ok ((p.cut policy r now).cut policy s later) := by
  have half := consistent.cut policy r now
  have other : s.id ≠ r.id := by
    intro same
    have equal := List.inj_on_of_nodup_map consistent.relationships second first same
    exact apart _ r.touchesField_source (equal ▸ r.touchesField_source)
  have free : s.touchesField r.dependent = false :=
    Bool.not_eq_true _ ▸ apart _ r.touchesField_dependent
  have remains : s ∈ (p.cut policy r now).relationships := by
    rw [cut_relationships]
    exact List.mem_filter.mpr ⟨second, by simp [other, free]⟩
  have found := (relationship?_eq_some_iff consistent).mpr ⟨first, rfl⟩
  have foundLater := (relationship?_eq_some_iff half).mpr ⟨remains, rfl⟩
  simp only [deleteBoth, deleteRelationship_eq found (consistent.endpoint first).2.2,
    deleteRelationship_eq foundLater (half.endpoint remains).2.2, bind, Except.bind]
  rfl

/-! ### Either order -/

/-- Changes that agree on the fields of a project leave the same of its tables. -/
theorem refit_congr {first second : Location → Field → Option Field} (keyed : p.Keyed)
    (same : ∀ l f, p.field? l = some f → first l f = second l f) :
    p.undatedTables.map (Table.refit first) = p.undatedTables.map (Table.refit second) := by
  refine List.map_congr_left fun t member => ?_
  obtain ⟨u, present, rfl⟩ := List.mem_map.mp member
  unfold Table.refit
  congr 1
  refine List.filterMap_congr fun f inside => ?_
  have found : p.field? ⟨u.id, f.id⟩ = some f := field?_of_mem keyed present inside
  exact same _ f found

theorem undatedTables_cut_cut (consistent : p.Consistent) (policy : OriginPolicy)
    (r s : Relationship) (now later : Timestamp) :
    ((p.cut policy r now).cut policy s later).undatedTables =
      p.undatedTables.map (Table.refit fun l f => ((p.verdict policy r).effect r.dependent l f).bind
        (((p.cut policy r now).verdict policy s).effect s.dependent l)) := by
  have half := (consistent.cut policy r now).toKeyed
  have first : (p.cut policy r now).undatedTables = _ :=
    undatedTables_reconcile_eq consistent.toKeyed policy r now
  have second : ((p.cut policy r now).cut policy s later).undatedTables = _ :=
    undatedTables_reconcile_eq half policy s later
  rw [second, first, List.map_map]
  exact List.map_congr_left fun t _ => Table.refit_refit Reconciliation.effect_id t

theorem cut_cut_relationships :
    ((p.cut policy r now).cut policy s later).relationships = p.relationships.filter fun u =>
      (u.id != s.id &&
        !((p.cut policy r now).verdict policy s = .removed && u.touchesField s.dependent)) &&
      (u.id != r.id && !(p.verdict policy r = .removed && u.touchesField r.dependent)) := by
  rw [cut_relationships, cut_relationships, List.filter_filter]

/-- What two deletions leave, up to times. -/
def Agree (p q : Project) : Prop :=
  p.undatedTables = q.undatedTables ∧ p.relationships = q.relationships

variable {soon last : Timestamp}

/-- A bereaved relationship that does not go by the name of its source leaves a plain field either
way. -/
theorem agree_of_bereaves (consistent : p.Consistent) (apart : r.Apart s)
    (bereaved : p.Bereaves policy r s) (kept : ¬ p.Overrules policy r s) :
    Agree ((p.cut policy r now).cut policy s later) ((p.cut policy s soon).cut policy r last) := by
  obtain ⟨idle, settled⟩ := verdict_of_bereaves apart bereaved now
  have detached : (p.cut policy r now).verdict policy s = .detached := by
    rcases settled with ⟨_, overruled⟩ | ⟨detached, _⟩
    · exact (kept overruled).elim
    · exact detached
  have removed := bereaved.1
  have unmoved : (p.cut policy s soon).verdict policy r = .removed := by
    rw [verdict_cut apart.symm (bereaved.asymm apart), removed]
  constructor
  · rw [undatedTables_cut_cut consistent, undatedTables_cut_cut consistent]
    refine refit_congr consistent.toKeyed fun l f found => ?_
    rw [removed, detached, idle, unmoved]
    by_cases here : l = s.dependent
    · obtain ⟨_, g, there, refers⟩ := bereaved
      obtain rfl : f = g := Option.some.inj ((here ▸ found).symm.trans there)
      rw [here]
      exact Reconciliation.effect_detached_of_refersTo refers apart.dependent_ne
    · by_cases gone : l = r.dependent <;> simp [Reconciliation.effect, here, gone]
  · rw [cut_cut_relationships, cut_cut_relationships, removed, detached, idle, unmoved]
    exact List.filter_congr fun u _ => by simp [Bool.and_comm]

theorem agree_of_not_overrules (consistent : p.Consistent) (apart : r.Apart s)
    (first : ¬ p.Overrules policy r s) (second : ¬ p.Overrules policy s r) :
    Agree ((p.cut policy r now).cut policy s later) ((p.cut policy s soon).cut policy r last) := by
  by_cases one : p.Bereaves policy r s
  · exact agree_of_bereaves consistent apart one first
  by_cases two : p.Bereaves policy s r
  · have agree : Agree ((p.cut policy s soon).cut policy r last)
        ((p.cut policy r now).cut policy s later) :=
      agree_of_bereaves consistent apart.symm two second
    exact ⟨agree.1.symm, agree.2.symm⟩
  constructor
  · rw [undatedTables_cut_cut consistent, undatedTables_cut_cut consistent, verdict_cut apart one,
      verdict_cut apart.symm two]
    refine refit_congr consistent.toKeyed fun l f _ => ?_
    exact Reconciliation.effect_comm apart.symm.dependent_ne _ _ l f
  · rw [cut_cut_relationships, cut_cut_relationships, verdict_cut apart one,
      verdict_cut apart.symm two]
    exact List.filter_congr fun u _ => Bool.and_comm _ _

/-- An overruled relationship takes its dependent field along only if it is deleted last. -/
theorem not_agree_of_overrules (apart : r.Apart s) (overruled : p.Overrules policy r s) :
    ¬ Agree ((p.cut policy r now).cut policy s later) ((p.cut policy s soon).cut policy r last) := by
  rintro ⟨tables, _⟩
  obtain ⟨removed, f, found, refers, named⟩ := overruled
  obtain ⟨idle, settled⟩ := verdict_of_bereaves apart ⟨removed, f, found, refers⟩ now
  have lost : ((p.cut policy r now).cut policy s later).field? s.dependent = none := by
    change ((p.cut policy r now).reconcile policy s later).2.field? s.dependent = none
    rw [field?_reconcile]
    rcases settled with ⟨gone, _⟩ | ⟨_, kept⟩
    · simp [gone]
    · exact (kept ⟨removed, f, found, refers, named⟩).elim
  have stays : ((p.cut policy s soon).cut policy r last).field? s.dependent ≠ none := by
    have half : (p.cut policy s soon).field? s.dependent = some f := by
      change (p.reconcile policy s soon).2.field? s.dependent = _
      rw [field?_reconcile, idle]
      exact found
    rw [field?_cut apart.dependent_ne, half]
    split <;> simp
  exact stays (field?_congr tables _ ▸ lost)

/-- Two relationships without a common end can be deleted in either order. The results agree up to
times exactly when neither deletion takes away the key that the other one's dependent field refers
to while that field bears the name of the source. -/
theorem deleteBoth_comm_iff (consistent : p.inconsistencies = []) (first : r ∈ p.relationships)
    (second : s ∈ p.relationships) (apart : r.Apart s) (policy : OriginPolicy)
    (now later soon last : Timestamp) :
    ∃ one two, p.deleteBoth policy r.id s.id now later = .ok one ∧
      p.deleteBoth policy s.id r.id soon last = .ok two ∧
      (one.undatedTables = two.undatedTables ∧ one.relationships = two.relationships ↔
        ¬ p.Overrules policy r s ∧ ¬ p.Overrules policy s r) := by
  have sound := inconsistencies_eq_nil_iff.mp consistent
  refine ⟨_, _, deleteBoth_eq sound first second apart policy now later,
    deleteBoth_eq sound second first apart.symm policy soon last, fun agree => ⟨?_, ?_⟩,
    fun ⟨one, two⟩ => agree_of_not_overrules sound apart one two⟩
  · exact fun overruled => not_agree_of_overrules apart overruled agree
  · exact fun overruled =>
      not_agree_of_overrules apart.symm overruled ⟨agree.1.symm, agree.2.symm⟩

/-- A field of sales refers to the key of stores, while a relationship connects it with the key of
queues. The key of stores is a linked foreign key itself. -/
def strayKey (name : String) : Project :=
  { empty "P" "shop" "main" "sales" newYear with
    tables :=
      [ { Table.plain "R" "regions" newYear with
          fields := [(Field.plain "K" "id" .int).asPrimaryKey] },
        { Table.plain "S" "stores" newYear with
          fields := [(Field.plain "L" "id" .int).asPrimaryKey.attach (.ofTarget ⟨"R", "K"⟩) .linked] },
        { Table.plain "T" "sales" newYear with
          fields := [(Field.plain "M" name .int).attach (.ofTarget ⟨"S", "L"⟩) .independent] },
        { Table.plain "Q" "queues" newYear with
          fields := [(Field.plain "N" "id" .int).asPrimaryKey] } ]
    relationships :=
      [.between "RS" ⟨"R", "K"⟩ ⟨"S", "L"⟩ newYear, .between "QT" ⟨"Q", "N"⟩ ⟨"T", "M"⟩ newYear] }

theorem strayKey_apart :
    (Relationship.between "RS" ⟨"R", "K"⟩ ⟨"S", "L"⟩ newYear).Apart
      (.between "QT" ⟨"Q", "N"⟩ ⟨"T", "M"⟩ newYear) := by
  intro l ours theirs
  simp only [Relationship.touchesField, Bool.or_eq_true, beq_iff_eq] at ours theirs
  rcases ours with (rfl | rfl) | rfl <;> revert theirs <;> decide

/-- The independent field of sales has the name of the key of queues: it is lost if the relationship
with that key is deleted last, and a plain field if it is deleted first. -/
theorem strayKey_order_matters :
    (strayKey "id").inconsistencies = [] ∧
      ∃ r ∈ (strayKey "id").relationships, ∃ s ∈ (strayKey "id").relationships, r.Apart s ∧
      ∃ one two, (strayKey "id").deleteBoth .explicit r.id s.id newYear newYear = .ok one ∧
        (strayKey "id").deleteBoth .explicit s.id r.id newYear newYear = .ok two ∧
        one.field? ⟨"T", "M"⟩ = none ∧ (two.field? ⟨"T", "M"⟩).isSome ∧
        one.undatedTables ≠ two.undatedTables :=
  ⟨rfl, _, .head _, _, .tail _ (.head _), strayKey_apart, _, _, rfl, rfl, rfl, rfl, by decide⟩

/-- Under any other name it is a plain field in the end. -/
theorem strayKey_commutes :
    ∃ one two, (strayKey "store").deleteBoth .explicit "RS" "QT" newYear newYear = .ok one ∧
      (strayKey "store").deleteBoth .explicit "QT" "RS" newYear newYear = .ok two ∧
      one.undatedTables = two.undatedTables ∧ one.relationships = two.relationships := by
  obtain ⟨one, two, first, second, agree⟩ := deleteBoth_comm_iff (p := strayKey "store") rfl
    (.head _) (.tail _ (.head _)) strayKey_apart .explicit newYear newYear newYear newYear
  refine ⟨one, two, first, second, agree.mpr ⟨?_, ?_⟩⟩
  · rintro ⟨_, f, found, _, named⟩
    obtain rfl := Option.some.inj found
    revert named
    decide
  · rintro ⟨removed, _⟩
    revert removed
    decide

end Project
end LakeSchema
