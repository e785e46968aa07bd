import LakeSchema.Proofs.Edit.Linking
import LakeSchema.Proofs.Edit.Patch
import LakeSchema.Proofs.Session.OriginStability

/-!
# Answers and what is stored

A command that writes an entity answers with it before the origins of foreign keys are recorded. So
the answer is the entity that the project holds afterwards exactly if there was no origin left to
record: `run_stored_iff` says which commands leave none.
-/

namespace LakeSchema

theorem Field.Heir.recorded {f g : Field} (heir : f.Heir g) (recorded : f.Recorded) :
    g.Recorded := by
  intro refers
  obtain ⟨before, same⟩ := heir (Option.isSome_iff_ne_none.mp refers)
  rw [same]
  exact recorded (Option.isSome_iff_ne_none.mpr before)

namespace Project

variable {p q : Project} {policy : OriginPolicy} {now : Timestamp} {t : Table} {f : Field}
  {id : String} {l : Location}

theorem Aftermath.recorded_iff {patch : TablePatch} {g : Table → Table}
    {h : Location → Field → Field} (aftermath : Aftermath now t patch g h) :
    (h l f).Recorded ↔ refersToAny t.id (patchEffects t patch.fields).1 f ∨ f.Recorded := by
  rw [Field.Recorded, aftermath.reference, aftermath.origin, Field.detachWhen]
  split
  · rename_i detached
    simp [detached, Field.detach]
  · rename_i kept
    simp [kept, Field.Recorded]

/-- The table that an edit leaves has all origins recorded if the fields that it was given have, apart
from those whose keys leave. -/
theorem patchTable_recorded_iff {patch : TablePatch} {answer : Table} (located : p.table? id = some t)
    (done : p.patchTable policy id patch now = .ok (answer, q)) :
    answer.Recorded ↔ ∀ f ∈ patch.fields.on t.fields,
      refersToAny id (patchEffects t patch.fields).1 f ∨ f.Recorded := by
  obtain ⟨u, g, h, _, again, _, aftermath, rfl, _⟩ := patchTable_effect done
  obtain rfl : t = u := Option.some_inj.mp (located.symm.trans again)
  rw [Table.Recorded, aftermath.fields, List.forall_mem_map]
  simp only [aftermath.recorded_iff, table?_id located]
  rfl

end Project

/-! ### What is stored -/

namespace Session

variable {s next : Session} {q : Project} {now : Timestamp} {t : Table} {f : Field} {id : String}
  {l : Location} {command : Command} {outcome : Outcome}

theorem settled_field?_iff {policy : OriginPolicy} (found : q.field? l = some f) :
    (settled policy q).field? l = some f ↔ (policy = .explicit → f.Recorded) := by
  cases policy with
  | explicit =>
    rw [settled, Project.field?_recordOrigins, found, Option.map_some, Option.some_inj,
      Project.recordOrigin_eq_self_iff]
    simp
  | nameMatch => simp [settled, found]

theorem table_stored_iff (committed : s.commit q now = .ok next) (found : q.table? id = some t) :
    (next.project.table? t.id).map Outcome.table = some (.table t) ↔
      (s.policy = .explicit → t.Recorded) := by
  rw [← settledTable_eq_self_iff (p := q), commit_table? committed, Project.table?_id found, found]
  simp

theorem field_stored_iff (committed : s.commit q now = .ok next) (found : q.field? l = some f) :
    (next.project.field? ⟨l.table, f.id⟩).map Outcome.field = some (.field f) ↔
      (s.policy = .explicit → f.Recorded) := by
  rw [← settled_field?_iff found, Project.field?_id found, commit_field? committed]
  simp

theorem relationship_stored {r : Relationship} (committed : s.commit q now = .ok next)
    (found : q.relationship? r.id = some r) :
    (next.project.relationship? r.id).map Outcome.relationship = some (.relationship r) := by
  rw [Project.relationship?, (commit_keeps committed).1]
  exact congrArg _ found

theorem metricView_stored {v : MetricView} (committed : s.commit q now = .ok next)
    (found : q.metricView? v.id = some v) :
    (next.project.metricView? v.id).map Outcome.metricView = some (.metricView v) := by
  rw [Project.metricView?, (commit_keeps committed).2.1]
  exact congrArg _ found

theorem traditionalView_stored {v : TraditionalView} (committed : s.commit q now = .ok next)
    (found : q.traditionalView? v.id = some v) :
    (next.project.traditionalView? v.id).map Outcome.traditionalView =
      some (.traditionalView v) := by
  rw [Project.traditionalView?, (commit_keeps committed).2.2.1]
  exact congrArg _ found

theorem linked_stored {p : Project} {spec : RelationshipSpec} {r : Relationship}
    (linked : p.link spec now = .ok (r, q)) (committed : s.commit q now = .ok next) :
    (next.project.relationship? r.id).map Outcome.relationship = some (.relationship r) := by
  obtain ⟨new, _, _, _, rfl, rfl⟩ := Project.link_eq_ok_iff.mp linked
  exact relationship_stored committed (find?_append_of_none new (beq_self_eq_true spec.id))

theorem updateRelationship_stored {p : Project} {patch : RelationshipPatch} {r : Relationship}
    (updated : p.updateRelationship id patch now = .ok (r, q))
    (committed : s.commit q now = .ok next) :
    (next.project.relationship? r.id).map Outcome.relationship = some (.relationship r) := by
  obtain ⟨before, found, same, written⟩ := Project.updateRelationship_effect updated
  have named : r.id = id := by
    have known : before.id = id := by simpa using List.find?_some found
    rw [same]
    exact known
  refine relationship_stored committed ?_
  have replaced : q.relationships =
      Project.updateFirst (·.id == id) (fun _ => r) p.relationships := by
    rcases written with rfl | rfl <;> rfl
  rw [Project.relationship?, replaced, named]
  exact Project.find?_updateFirst_of_some found (beq_iff_eq.mpr named)

theorem addMetricView_stored {p : Project} {v answer : MetricView}
    (added : p.addMetricView v now = .ok (answer, q)) (committed : s.commit q now = .ok next) :
    (next.project.metricView? answer.id).map Outcome.metricView = some (.metricView answer) := by
  obtain ⟨_, new, rfl, rfl⟩ := Project.addMetricView_effect added
  exact metricView_stored committed (find?_append_of_none new (beq_self_eq_true v.id))

theorem updateMetricView_stored {p : Project} {patch : MetricViewPatch} {answer : MetricView}
    (updated : p.updateMetricView id patch now = .ok (answer, q))
    (committed : s.commit q now = .ok next) :
    (next.project.metricView? answer.id).map Outcome.metricView = some (.metricView answer) := by
  obtain ⟨v, found, _, written, rfl⟩ := Project.updateMetricView_effect updated
  have known : v.id = id := by simpa using List.find?_some found
  have same : answer.id = id := by
    rw [written]
    exact known
  refine metricView_stored committed ?_
  rw [same]
  exact Project.find?_updateFirst_of_some found (beq_iff_eq.mpr same)

theorem addTraditionalView_stored {p : Project} {v answer : TraditionalView}
    (added : p.addTraditionalView v now = .ok (answer, q)) (committed : s.commit q now = .ok next) :
    (next.project.traditionalView? answer.id).map Outcome.traditionalView =
      some (.traditionalView answer) := by
  obtain ⟨_, new, same, _, _, rfl⟩ := Project.addTraditionalView_effect added
  refine traditionalView_stored committed ?_
  rw [same]
  exact find?_append_of_none new (beq_iff_eq.mpr same)

theorem updateTraditionalView_stored {p : Project} {patch : TraditionalViewPatch}
    {answer : TraditionalView} (updated : p.updateTraditionalView id patch now = .ok (answer, q))
    (committed : s.commit q now = .ok next) :
    (next.project.traditionalView? answer.id).map Outcome.traditionalView =
      some (.traditionalView answer) := by
  obtain ⟨v, found, _, kept, _, _, rfl⟩ := Project.updateTraditionalView_effect updated
  have known : v.id = id := by simpa using List.find?_some found
  have same : answer.id = id := kept.trans known
  refine traditionalView_stored committed ?_
  rw [same]
  exact Project.find?_updateFirst_of_some found (beq_iff_eq.mpr same)

theorem addMetricRelationship_stored {p : Project} {table view : String}
    {answer : MetricRelationship} (fresh : p.metricRelationships.find? (·.id == id) = none)
    (added : p.addMetricRelationship id table view now = .ok (answer, q))
    (committed : s.commit q now = .ok next) :
    (next.project.metricRelationships.find? (·.id == answer.id)).map Outcome.metricRelationship =
      some (.metricRelationship answer) := by
  obtain ⟨rfl, rfl⟩ := Project.addMetricRelationship_effect added
  have found := find?_append_of_none fresh
    (x := MetricRelationship.between id table view now) (beq_self_eq_true id)
  change (next.project.metricRelationships.find? (·.id == id)).map _ = _
  rw [(commit_keeps committed).2.2.2, found]
  rfl

end Session

namespace Command

/-- The commands that answer with an entity that they add, change or connect. -/
def writes : Command → Bool
  | addTable _ | updateTable .. | addField .. | updateField .. | addRelationship _
  | updateRelationship .. | connect _ | addMetricView _ | updateMetricView ..
  | addTraditionalView _ | updateTraditionalView .. | addMetricRelationship .. => true
  | deleteTable _ | deleteField .. | deleteRelationship _ | removeLine _ | deleteMetricView _
  | deleteTraditionalView _ | deleteMetricRelationship _ | merge _ | reset _ => false

/-- The identifier that is made up for a new link to a metric view is not in use. -/
def isFresh (p : Project) : Command → Bool
  | addMetricRelationship id _ _ => p.metricRelationships.all (·.id != id)
  | _ => true

/-- No foreign key that the command writes is left without an origin: it has one, or the field that it
refers to leaves with the same command, which makes it a plain field. -/
def RecordsOrigins (p : Project) : Command → Prop
  | addTable spec => ∀ f ∈ spec.fields, f.Recorded
  | addField _ f => f.Recorded
  | updateTable table patch => ∀ t fields, p.table? table = some t → patch.fields = .set fields →
      ∀ f ∈ fields, Project.refersToAny table (Project.leavingFields t fields) f ∨ f.Recorded
  | _ => True

end Command

/-- What a project holds under the identifier of the entity that a command answered with. -/
def Project.stored? (p : Project) : Command → Outcome → Option Outcome
  | _, .table t => (p.table? t.id).map .table
  | .addField table _, .field f | .updateField table _ _, .field f =>
    (p.field? ⟨table, f.id⟩).map .field
  | _, .relationship r => (p.relationship? r.id).map .relationship
  | _, .metricView v => (p.metricView? v.id).map .metricView
  | _, .traditionalView v => (p.traditionalView? v.id).map .traditionalView
  | _, .metricRelationship r =>
    (p.metricRelationships.find? (·.id == r.id)).map .metricRelationship
  | _, _ => none

namespace Session

variable {s next : Session} {now : Timestamp} {command : Command} {outcome : Outcome}

theorem updateTable_recorded_iff {patch : TablePatch} {answer : Table} {q : Project} {table : String}
    (sound : s.Sound) (explicit : s.policy = .explicit)
    (patched : s.project.patchTable s.policy table patch now = .ok (answer, q)) :
    answer.Recorded ↔ (Command.updateTable table patch).RecordsOrigins s.project := by
  obtain ⟨t, _, _, _, located, _⟩ := Project.patchTable_effect patched
  rw [Project.patchTable_recorded_iff located patched]
  cases given : patch.fields with
  | keep =>
    have recorded := sound.recorded explicit (List.mem_of_find?_eq_some located)
    refine iff_of_true (fun f member => .inr (recorded f member)) ?_
    exact fun _ _ _ other => by simp [given] at other
  | set fields =>
    constructor
    · intro each u others again same
      obtain rfl : t = u := Option.some_inj.mp (located.symm.trans again)
      obtain rfl : fields = others := by simpa [given] using same
      exact each
    · exact fun recorded => recorded t fields located given

theorem addTable_stored_iff {p : Project} {spec : TableSpec} {answer : Table}
    (added : p.addTable spec now = .ok (answer, q)) (committed : s.commit q now = .ok next) :
    (next.project.table? answer.id).map Outcome.table = some (.table answer) ↔
      (s.policy = .explicit → ∀ f ∈ spec.fields, f.Recorded) := by
  obtain ⟨_, _, new, rfl, rfl⟩ := Project.addTable_effect added
  exact table_stored_iff committed (find?_append_of_none new (beq_self_eq_true spec.id))

theorem updateTable_stored_iff {q : Project} {table : String} {patch : TablePatch} {answer : Table}
    (sound : s.Sound) (patched : s.project.patchTable s.policy table patch now = .ok (answer, q))
    (committed : s.commit q now = .ok next) :
    (next.project.table? answer.id).map Outcome.table = some (.table answer) ↔
      (s.policy = .explicit → (Command.updateTable table patch).RecordsOrigins s.project) := by
  obtain ⟨_, _, _, _, _, _, _, _, _, found⟩ := Project.patchTable_effect patched
  rw [table_stored_iff committed found]
  exact forall_congr' fun explicit => updateTable_recorded_iff sound explicit patched

theorem addField_stored_iff {table : String} {f answer : Field} {q : Project} (keyed : s.project.Keyed)
    (added : s.project.addField s.policy table f now = .ok (answer, q))
    (committed : s.commit q now = .ok next) :
    (next.project.field? ⟨table, answer.id⟩).map Outcome.field = some (.field answer) ↔
      (s.policy = .explicit → f.Recorded) := by
  obtain ⟨t, located, _, new, rfl, rfl⟩ := Project.addField_effect keyed added
  refine field_stored_iff (l := ⟨table, answer.id⟩) committed ?_
  have same : t.id = table := Project.table?_id located
  have written : (s.project.updateTable table fun u =>
      { u with fields := t.fields ++ [answer], updatedAt := now }).table? table =
        some { t with fields := t.fields ++ [answer], updatedAt := now } :=
    Project.find?_updateFirst_of_some located (beq_iff_eq.mpr same)
  rw [Project.field?_of_table? written rfl]
  exact find?_append_of_none new (beq_self_eq_true answer.id)

theorem updateField_stored {table id : String} {patch : FieldPatch} {answer : Field} {q : Project}
    (sound : s.Sound)
    (edited : s.project.updateField s.policy table id patch now = .ok (answer, q))
    (committed : s.commit q now = .ok next) :
    (next.project.field? ⟨table, answer.id⟩).map Outcome.field = some (.field answer) := by
  obtain ⟨t, f, u, located, present, _, patched, found⟩ := Project.updateField_steps edited
  obtain ⟨_, _, _, _, _, _, _, _, _, kept⟩ := Project.patchTable_effect patched
  have before : s.project.field? ⟨table, id⟩ = some f :=
    (Project.field?_of_table? located rfl).trans present
  have after : q.field? ⟨table, id⟩ = some answer := (Project.field?_of_table? kept rfl).trans found
  refine (field_stored_iff committed after).mpr fun explicit => ?_
  exact (Project.updateField_inherited before edited answer after).recorded
    (sound.recorded explicit (List.mem_of_find?_eq_some located) f
      (List.mem_of_find?_eq_some present))

/-- In every session a command that writes an entity answers with the one that is stored, unless the
origins of foreign keys that it wrote are recorded after it. -/
theorem run_stored_iff (reachable : Reachable s) (writes : command.writes)
    (fresh : command.isFresh s.project) (done : s.run now command = .ok (outcome, next)) :
    next.project.stored? command outcome = some outcome ↔
      (s.policy = .explicit → command.RecordsOrigins s.project) := by
  have sound := reachable.sound
  have stored {kept : Prop} (holds : kept) : kept ↔ (s.policy = .explicit → True) :=
    iff_of_true holds fun _ => trivial
  cases command with
  | addTable spec =>
    obtain ⟨answer, q, added, committed, rfl⟩ := apply_eq_ok_iff.mp done
    exact addTable_stored_iff added committed
  | updateTable table patch =>
    obtain ⟨answer, q, patched, committed, rfl⟩ := apply_eq_ok_iff.mp done
    exact updateTable_stored_iff sound patched committed
  | addField table f =>
    obtain ⟨answer, q, added, committed, rfl⟩ := apply_eq_ok_iff.mp done
    exact addField_stored_iff sound.consistent.toKeyed added committed
  | updateField table id patch =>
    obtain ⟨answer, q, edited, committed, rfl⟩ := apply_eq_ok_iff.mp done
    exact stored (updateField_stored sound edited committed)
  | addRelationship spec =>
    obtain ⟨r, q, linked, committed, rfl⟩ := apply_eq_ok_iff.mp done
    exact stored (linked_stored linked committed)
  | updateRelationship id patch =>
    obtain ⟨r, q, updated, committed, rfl⟩ := apply_eq_ok_iff.mp done
    exact stored (updateRelationship_stored updated committed)
  | connect connection =>
    obtain ⟨r, q, connected, committed, rfl⟩ := apply_eq_ok_iff.mp done
    obtain ⟨_, _, _, _, _, _, linked⟩ := Project.connect_steps connected
    exact stored (linked_stored linked committed)
  | addMetricView v =>
    obtain ⟨answer, q, added, committed, rfl⟩ := apply_eq_ok_iff.mp done
    exact stored (addMetricView_stored added committed)
  | updateMetricView id patch =>
    obtain ⟨answer, q, updated, committed, rfl⟩ := apply_eq_ok_iff.mp done
    exact stored (updateMetricView_stored updated committed)
  | addTraditionalView v =>
    obtain ⟨answer, q, added, committed, rfl⟩ := apply_eq_ok_iff.mp done
    exact stored (addTraditionalView_stored added committed)
  | updateTraditionalView id patch =>
    obtain ⟨answer, q, updated, committed, rfl⟩ := apply_eq_ok_iff.mp done
    exact stored (updateTraditionalView_stored updated committed)
  | addMetricRelationship id table view =>
    obtain ⟨answer, q, added, committed, rfl⟩ := apply_eq_ok_iff.mp done
    have unused : s.project.metricRelationships.find? (·.id == id) = none := by
      simpa [Command.isFresh] using fresh
    exact stored (addMetricRelationship_stored unused added committed)
  | deleteTable | deleteField | deleteRelationship | removeLine | deleteMetricView
  | deleteTraditionalView | deleteMetricRelationship | merge | reset =>
    exact (Bool.false_ne_true writes).elim

/-- A new table of stores, which refer to regions by a key of some origin or none. -/
def addStores (origin : Option KeyOrigin) : Command :=
  .addTable (newTable "S" "stores"
    [{ (Field.plain "L" "id" .int).referring ⟨"R", "K"⟩ with origin }])

/-- The answer lacks the origin that is recorded in the project. -/
theorem regionsOnly_answer_differs :
    ∃ outcome next, Reachable regionsOnly ∧ regionsOnly.policy = .explicit ∧
      regionsOnly.run Project.newYear (addStores none) = .ok (outcome, next) ∧
      next.project.stored? (addStores none) outcome ≠ some outcome :=
  ⟨_, _, regionsOnly_reachable, rfl, rfl, by decide⟩

/-- With an origin of its own the key is stored as it is answered. -/
theorem regionsOnly_answer_stored :
    let command := addStores (some .independent)
    Reachable regionsOnly ∧ command.writes ∧ command.isFresh regionsOnly.project ∧
      ∃ outcome next, regionsOnly.run Project.newYear command = .ok (outcome, next) ∧
        next.project.stored? command outcome = some outcome := by
  obtain ⟨outcome, next, done⟩ : ∃ outcome next,
      regionsOnly.run Project.newYear (addStores (some .independent)) = .ok (outcome, next) :=
    ⟨_, _, rfl⟩
  refine ⟨regionsOnly_reachable, rfl, rfl, outcome, next, done, ?_⟩
  refine (run_stored_iff regionsOnly_reachable rfl rfl done).mpr fun _ => ?_
  exact List.forall_mem_singleton.mpr fun _ => rfl

end Session
end LakeSchema
