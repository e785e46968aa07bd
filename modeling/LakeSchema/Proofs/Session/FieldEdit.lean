import LakeSchema.Proofs.Edit.FieldEdit
import LakeSchema.Proofs.Session.OriginStability
import LakeSchema.Proofs.Session.RenameClash

/-!
# Edited fields in a session

In a session all origins are recorded that the policy asks for, and an edited field keeps what it refers
to. So nothing is left for a commit to complain about or to add: a patch of a field is refused for the
reasons of `FieldRefusal` alone, and else has the effect of `FieldEdited` (`run_updateField`).
-/

namespace LakeSchema

namespace Session

variable {s : Session} {table id : String} {patch : FieldPatch} {key : Field}

/-- The commit after a patch of a field accepts the project and changes no more than its time. -/
theorem commit_fieldPatched (sound : s.Sound) (found : s.project.field? ⟨table, id⟩ = some key)
    (patch : FieldPatch) (now : Timestamp) :
    let p := s.project.fieldPatched s.policy ⟨table, id⟩ key patch now
    s.commit p now = .ok { s with project := { p with updatedAt := now } } := by
  refine commit_recorded (Project.fieldPatched_consistent sound.consistent found s.policy patch now)
    (fun explicit u member => ?_) now
  obtain ⟨t, present, rfl⟩ := List.mem_map.mp member
  intro g inside
  obtain ⟨f, held, rfl⟩ := List.mem_map.mp inside
  obtain ⟨reference, _, origin⟩ := Project.effect_keeps found
    (Project.field?_of_mem sound.consistent.toKeyed present held) s.policy patch
  rw [Field.Recorded, reference, origin]
  exact sound.recorded explicit present f held

/-- In every session a patch of a field fails exactly if the table or the field is missing, the field
gets an unusable name, or a linked foreign key would take a name that its table has in use. If it is
done it changes the field, the foreign keys that it reaches, and times. -/
theorem run_updateField (reachable : Reachable s) (table id : String) (patch : FieldPatch)
    (now : Timestamp) :
    ((∃ error, s.run now (.updateField table id patch) = .error error) ↔
        ∃ error, s.project.FieldRefusal s.policy table id patch error) ∧
      (∀ error, s.run now (.updateField table id patch) = .error error →
        s.project.FieldRefusal s.policy table id patch error) ∧
      ∀ outcome next, s.run now (.updateField table id patch) = .ok (outcome, next) →
        ∃ key, s.project.field? ⟨table, id⟩ = some key ∧ outcome = .field (patch.apply key) ∧
          next.policy = s.policy ∧
          s.project.FieldEdited s.policy ⟨table, id⟩ key (patch.apply key) now next.project := by
  have keyed := reachable.sound.consistent.toKeyed
  rw [run, execute]
  rcases s.project.updateField_cases keyed s.policy table id patch now with
    ⟨error, refusal, refused⟩ | ⟨fine, key, found, done⟩
  · rw [apply_eq_error_iff.mpr (.inl refused)]
    refine ⟨iff_of_true ⟨error, rfl⟩ ⟨error, refusal⟩, fun other same => ?_, by simp⟩
    obtain rfl : error = other := Except.error.inj same
    exact refusal
  · have accepted : (apply now .field fun s =>
        s.project.updateField s.policy table id patch now).result s =
          .ok (.field (patch.apply key), _) :=
      apply_eq_ok_iff.mpr ⟨_, _, done, commit_fieldPatched reachable.sound found patch now, rfl⟩
    rw [accepted]
    refine ⟨iff_of_false (by simp) (not_exists.mpr fine), by simp,
      fun outcome next same => ?_⟩
    obtain ⟨rfl, rfl⟩ := Prod.mk.inj (Except.ok.inj same)
    exact ⟨key, found, rfl, rfl, Project.fieldPatched_edited keyed found⟩

/-- The field of stores that refers to a country takes over a new name of its key, unless that is the
name of the other field of stores. -/
theorem pairedRegions_renames :
    Reachable pairedRegions ∧
      (∃ outcome next key,
        pairedRegions.run Project.newYear (.updateField "R" "K" (.rename "code")) =
          .ok (outcome, next) ∧
        pairedRegions.project.field? ⟨"R", "K"⟩ = some key ∧
        pairedRegions.project.FieldEdited pairedRegions.policy ⟨"R", "K"⟩ key
          ((FieldPatch.rename "code").apply key) Project.newYear next.project) ∧
      ∃ error,
        pairedRegions.run Project.newYear (.updateField "R" "K" (.rename "number")) = .error error ∧
        pairedRegions.project.FieldRefusal pairedRegions.policy "R" "K" (.rename "number") error := by
  obtain ⟨outcome, next, done⟩ : ∃ outcome next,
      pairedRegions.run Project.newYear (.updateField "R" "K" (.rename "code")) =
        .ok (outcome, next) := ⟨_, _, rfl⟩
  have refused : pairedRegions.run Project.newYear (.updateField "R" "K" (.rename "number")) =
      .error (.nameTaken "L" "number" "stores") := rfl
  obtain ⟨_, _, edits⟩ := run_updateField pairedRegions_reachable "R" "K" (.rename "code")
    Project.newYear
  obtain ⟨_, refuses, _⟩ := run_updateField pairedRegions_reachable "R" "K" (.rename "number")
    Project.newYear
  obtain ⟨key, found, _, _, edited⟩ := edits outcome next done
  exact ⟨pairedRegions_reachable, ⟨outcome, next, key, done, found, edited⟩, _, refused,
    refuses _ refused⟩

end Session
end LakeSchema
