import LakeSchema.Proofs.Edit.Deletion
import LakeSchema.Proofs.Session.Invariant

/-!
# Deletions in a session

A deletion succeeds exactly when its target exists (`run_deletion`): what goes along with the target
leaves a project that the session accepts, so the only failure is a target that is not found.
-/

namespace LakeSchema

/-- The commands that delete. -/
inductive Deletion where
  | table (id : String)
  | field (owner id : String)
  | relationship (id : String)
  | line (id : String)
  | metricView (id : String)
  | traditionalView (id : String)
  | metricRelationship (id : String)
deriving DecidableEq

namespace Deletion

def command : Deletion → Command
  | table id => .deleteTable id
  | field owner id => .deleteField owner id
  | relationship id => .deleteRelationship id
  | line id => .removeLine id
  | metricView id => .deleteMetricView id
  | traditionalView id => .deleteTraditionalView id
  | metricRelationship id => .deleteMetricRelationship id

/-- The target is in the project. -/
def Finds (p : Project) : Deletion → Prop
  | table id => ∃ t ∈ p.tables, t.id = id
  | field owner id => ∃ t ∈ p.tables, t.id = owner ∧ ∃ f ∈ t.fields, f.id = id
  | relationship id | line id => ∃ r ∈ p.relationships, r.id = id
  | metricView id => ∃ v ∈ p.metricViews, v.id = id
  | traditionalView id => ∃ v ∈ p.traditionalViews, v.id = id
  | metricRelationship id => ∃ m ∈ p.metricRelationships, m.id = id

/-- The kind and identifier of what is missing when the target is not found: a field may be missing
together with its table. -/
def missing (p : Project) : Deletion → EntityKind × String
  | table id => (.table, id)
  | field owner id => if p.tables.any (·.id == owner) then (.field, id) else (.table, owner)
  | relationship id | line id => (.relationship, id)
  | metricView id => (.metricView, id)
  | traditionalView id => (.traditionalView, id)
  | metricRelationship id => (.metricRelationship, id)

end Deletion

namespace Session
open Project

variable {s : Session} {now : Timestamp}

/-- An exact edit is accepted by the session whenever its target is there. -/
theorem apply_exact {α : Type} {op : Session → Except SchemaError (α × Project)} {there : Prop}
    {missing : SchemaError} (exact : Exact (op s) there missing) (shown : α → Outcome) :
    ((∃ outcome next, (apply now shown op).result s = .ok (outcome, next)) ↔ there) ∧
      (¬ there → (apply now shown op).result s = .error missing) := by
  have failed : ¬ there → (apply now shown op).result s = .error missing := fun absent =>
    apply_eq_error_iff.mpr (.inl (exact.failed absent))
  refine ⟨⟨?_, fun target => ?_⟩, failed⟩
  · rintro ⟨outcome, next, done⟩
    by_contra absent
    rw [failed absent] at done
    contradiction
  · obtain ⟨answer, q, done, consistent⟩ := exact.done target
    exact ⟨_, _, apply_eq_ok_iff.mpr
      ⟨answer, q, done, commit_eq_ok_iff.mpr ⟨consistent, rfl⟩, rfl⟩⟩

/-- In every session that commands lead to, a deletion succeeds exactly when its target exists. Else
the target, or the table of a field, is reported as not found. -/
theorem run_deletion (reachable : Reachable s) (d : Deletion) (now : Timestamp) :
    ((∃ outcome next, s.run now d.command = .ok (outcome, next)) ↔ d.Finds s.project) ∧
      (¬ d.Finds s.project → s.run now d.command =
        .error (.notFound (d.missing s.project).1 (d.missing s.project).2)) := by
  have consistent := reachable.sound.consistent
  cases d with
  | table id =>
    exact apply_exact ((deleteTable_exact consistent s.policy id now).of_iff find?_isSome_iff_mem) _
  | field owner id =>
    have exact := deleteField_exact consistent s.policy owner id now
    have located : (s.project.table? owner).isSome = s.project.tables.any (·.id == owner) := by
      rw [Bool.eq_iff_iff, table?, find?_isSome_iff_mem]
      simp
    have missing : (if (s.project.table? owner).isSome then SchemaError.notFound .field id
        else .notFound .table owner) = .notFound ((Deletion.field owner id).missing s.project).1
          ((Deletion.field owner id).missing s.project).2 := by
      rw [Deletion.missing, located]
      split <;> rfl
    rw [missing] at exact
    exact apply_exact (exact.of_iff (has_iff_field? consistent.toKeyed).symm) _
  | relationship id =>
    exact apply_exact
      ((deleteRelationship_exact consistent s.policy id now).of_iff find?_isSome_iff_mem) _
  | line id => exact apply_exact ((removeLine_exact consistent id).of_iff find?_isSome_iff_mem) _
  | metricView id =>
    exact apply_exact ((deleteMetricView_exact consistent id).of_iff find?_isSome_iff_mem) _
  | traditionalView id =>
    exact apply_exact ((deleteTraditionalView_exact consistent id).of_iff find?_isSome_iff_mem) _
  | metricRelationship id =>
    exact apply_exact
      ((deleteMetricRelationship_exact consistent id).of_iff find?_isSome_iff_mem) _

theorem keyChain_deletions :
    let s : Session := ⟨keyChain.recordOrigins, .explicit⟩
    Reachable s ∧ (∃ outcome next, s.run newYear (.deleteTable "S") = .ok (outcome, next)) ∧
      s.run newYear (.deleteField "S" "M") = .error (.notFound .field "M") := by
  have reachable : Reachable ⟨keyChain.recordOrigins, .explicit⟩ :=
    .start (.opened (show open? .explicit .keyChain = .ok _ from rfl))
  have stores : (Deletion.table "S").Finds keyChain.recordOrigins := by
    show ∃ t ∈ keyChain.recordOrigins.tables, t.id = "S"
    decide
  have nowhere : ¬ (Deletion.field "S" "M").Finds keyChain.recordOrigins := by
    show ¬ ∃ t ∈ keyChain.recordOrigins.tables, t.id = "S" ∧ ∃ f ∈ t.fields, f.id = "M"
    decide
  exact ⟨reachable, (run_deletion reachable (.table "S") newYear).1.mpr stores,
    (run_deletion reachable (.field "S" "M") newYear).2 nowhere⟩

end Session
end LakeSchema
