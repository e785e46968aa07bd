import LakeSchema.Proofs.Edit.Provenance
import LakeSchema.Proofs.Session.Invariant

/-!
# Where the entities of a session come from

Committing an edit records origins, but changes no table that was there before, since these have
theirs. So what `Derived` says of edits holds of commands (`run_derived`), apart from imports and from
opening another project.
-/

namespace LakeSchema

open Project (Derived Writes)

/-- The names of fields that a command brings without a check: those of a new field list. -/
def Command.given : Command → List String
  | .updateTable _ patch => (patch.fields.on []).map (·.name)
  | _ => []

/-- The command edits the project of the session in place and imports nothing. -/
def Command.edits : Command → Bool
  | .merge _ | .reset _ => false
  | _ => true

namespace Session

variable {s next : Session} {p q : Project} {now : Timestamp} {command : Command}
  {outcome : Outcome} {given : List String}

/-- A commit changes no table from before: all that it could record there is recorded. -/
theorem commit_accounted {written : Table → Prop} (sound : s.Sound)
    (stable : ∀ t, written t → written (settledTable s.policy q t))
    (accounted : Accounted written s.project.tables q.tables)
    (committed : s.commit q now = .ok next) :
    Accounted written s.project.tables next.project.tables := by
  intro u member
  rw [(commit_tables committed).1] at member
  obtain ⟨t, present, rfl⟩ := List.mem_map.mp member
  rcases accounted t present with old | wrote
  · have same : settledTable s.policy q t = t :=
      settledTable_eq_self_iff.mpr fun explicit => sound.recorded explicit old
    exact .inl (same.symm ▸ old)
  · exact .inr (stable t wrote)

theorem commit_derived (sound : s.Sound) (derived : Derived given now s.project q)
    (committed : s.commit q now = .ok next) : Derived given now s.project next.project := by
  obtain ⟨relationships, metricViews, traditionalViews, _⟩ := commit_keeps committed
  refine ⟨commit_accounted sound (fun t wrote => ?_) derived.tables committed,
    relationships ▸ derived.relationships, metricViews ▸ derived.metricViews,
    traditionalViews ▸ derived.traditionalViews⟩
  obtain ⟨_, name, noted, fields⟩ := settledTable_keeps s.policy q t
  refine ⟨noted.trans wrote.updatedAt, name.symm ▸ wrote.name, fun f present => ?_⟩
  have listed : f.name ∈ t.fields.map (·.name) := fields ▸ List.mem_map_of_mem present
  obtain ⟨g, inside, same⟩ := List.mem_map.mp listed
  exact same ▸ wrote.fields g inside

/-! ### Commands -/

theorem apply_derived {α : Type} {shown : α → Outcome}
    {op : Session → Except SchemaError (α × Project)} (sound : s.Sound)
    (derived : ∀ {answer q}, op s = .ok (answer, q) → Derived given now s.project q)
    (done : (apply now shown op).result s = .ok (outcome, next)) :
    Derived given now s.project next.project := by
  obtain ⟨_, _, result, committed, _⟩ := apply_eq_ok_iff.mp done
  exact commit_derived sound (derived result) committed

/-- Whatever a command leaves was there before or is written by it, under names that were there, that
are acceptable, or that belong to fields of a new field list. -/
theorem run_derived (sound : s.Sound) (edits : command.edits)
    (done : s.run now command = .ok (outcome, next)) :
    Derived command.given now s.project next.project := by
  cases command with
  | addTable spec => exact apply_derived sound Project.addTable_derived done
  | updateTable table patch =>
    refine apply_derived sound (Project.patchTable_derived fun t located f listed => .inr ?_) done
    change f.name ∈ (patch.fields.on []).map (·.name) ++ _
    cases asked : patch.fields with
    | keep =>
      rw [asked] at listed
      exact List.mem_append_right _
        (Project.mem_fieldNames (List.mem_of_find?_eq_some located) listed)
    | set fields =>
      rw [asked] at listed
      exact List.mem_append_left _ (List.mem_map_of_mem listed)
  | deleteTable table => exact apply_derived sound Project.deleteTable_derived done
  | addField table f =>
    exact apply_derived sound (Project.addField_derived sound.consistent.toKeyed) done
  | updateField table id patch => exact apply_derived sound Project.updateField_derived done
  | deleteField table id => exact apply_derived sound Project.deleteField_derived done
  | addRelationship spec => exact apply_derived sound Project.link_derived done
  | updateRelationship id patch => exact apply_derived sound Project.updateRelationship_derived done
  | deleteRelationship id =>
    exact apply_derived sound Project.deleteRelationship_derived done
  | removeLine id => exact apply_derived sound Project.removeLine_derived done
  | connect connection => exact apply_derived sound Project.connect_derived done
  | addMetricView v => exact apply_derived sound Project.addMetricView_derived done
  | updateMetricView id patch => exact apply_derived sound Project.updateMetricView_derived done
  | deleteMetricView id => exact apply_derived sound Project.deleteMetricView_derived done
  | addTraditionalView v => exact apply_derived sound Project.addTraditionalView_derived done
  | updateTraditionalView id patch =>
    exact apply_derived sound Project.updateTraditionalView_derived done
  | deleteTraditionalView id => exact apply_derived sound Project.deleteTraditionalView_derived done
  | addMetricRelationship id table view =>
    exact apply_derived sound Project.addMetricRelationship_derived done
  | deleteMetricRelationship id =>
    exact apply_derived sound Project.deleteMetricRelationship_derived done
  | merge incoming | reset p => exact (Bool.false_ne_true edits).elim

end Session
end LakeSchema
