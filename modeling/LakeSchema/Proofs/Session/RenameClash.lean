import LakeSchema.Proofs.Edit.Patch
import LakeSchema.Proofs.ForeignKey.NameClash
import LakeSchema.Proofs.Session.Invariant

/-!
# Field lists that are refused for a rename

A new field list may change several keys of its table, and each of them renames the fields that are
linked to it. The edit is refused if a renamed field ends with the name of another one, but also if it
has that name only until the other one is renamed in its turn (`run_updateTable_nameTaken_iff`): two
keys whose fields are linked to them in one table cannot swap their names.
-/

namespace LakeSchema

namespace Project

variable {p : Project} {policy : OriginPolicy} {now : Timestamp} {t : Table} {id : String}
  {patch : TablePatch} {fields : List Field}

/-! ### The new field list -/

/-- The project once a table is edited and nothing refers to the fields that left it. -/
def patched (p : Project) (t : Table) (patch : TablePatch) (now : Timestamp) : Project :=
  (p.updateTable t.id fun _ => (patch.apply t).touch now).releaseAll t.id
    (patchEffects t patch.fields).1 now

/-- An edit of a table is the propagation of the keys that it changes. -/
theorem patchTable_eq (policy : OriginPolicy) (located : p.table? id = some t)
    (named : patch.name.isSet → Name.tableProblem? (patch.name.on t.name) = none) :
    p.patchTable policy id patch now = (do
      let synced ← propagateAll policy now (patchEffects t patch.fields).2 (p.patched t patch now)
      let result ← synced.requireTable id
      pure (result, synced)) := by
  obtain rfl : t.id = id := table?_id located
  rw [patchTable, requireTable, located]
  exact optional_eq_of_ok fun given => Name.accept_eq_ok_iff.mpr (named given)

theorem patched_keyed (keyed : p.Keyed) (located : p.table? id = some t) (now : Timestamp)
    (distinct : ((patch.fields.on t.fields).map (·.id)).Nodup) : (p.patched t patch now).Keyed := by
  obtain rfl : t.id = id := table?_id located
  obtain ⟨g, kept, rewriting, released⟩ := releaseAll_effect t.id (patchEffects t patch.fields).1 now
    (p.updateTable t.id fun _ => (patch.apply t).touch now)
  have written : (p.updateTable t.id fun _ => (patch.apply t).touch now).Keyed :=
    replaceTable_keyed keyed located rfl distinct
  exact rewriting.toFieldwise.keyed (congrArg Project.tables released) written

theorem changedKeys_nodup (t : Table) (distinct : (fields.map (·.id)).Nodup) :
    ((changedKeys t fields).map KeyChange.key).Nodup := by
  rw [List.Nodup, List.pairwise_map] at distinct ⊢
  rw [changedKeys, List.pairwise_filterMap]
  refine (distinct.filter _).imp fun {f g} apart change first other second same => apart ?_
  obtain ⟨_, _, rfl⟩ := Option.map_eq_some_iff.mp first
  obtain ⟨_, _, rfl⟩ := Option.map_eq_some_iff.mp second
  exact congrArg Location.field same

/-! ### Other refusals -/

/-- The consistency check reports no such name. -/
theorem nameTaken_not_mem_inconsistencies (p : Project) (field name table : String) :
    SchemaError.nameTaken field name table ∉ p.inconsistencies := by
  have reference : ∀ (t : Table) (f : Field),
      SchemaError.nameTaken field name table ∉ p.referenceProblems t f := by
    intro t f
    unfold referenceProblems
    split
    · exact List.not_mem_nil
    · intro member
      rcases List.mem_append.mp member with flag | target
      · split at flag
        · contradiction
        · simp only [SchemaError.nameTaken, List.mem_singleton, SchemaError.validation.injEq] at flag
          -- The two messages differ in their first letter.
          have texts := congrArg (fun s : String => s.toList.head?) flag.2
          simp at texts
      · split at target <;> simp [SchemaError.nameTaken] at target
  have relationship : ∀ earlier r,
      SchemaError.nameTaken field name table ∉ p.relationshipProblems earlier r := by
    intro earlier r
    simp [relationshipProblems, endpointProblem, SchemaError.nameTaken]
  intro member
  simp only [inconsistencies, List.mem_append, List.mem_flatMap, or_assoc] at member
  rcases member with ids | ⟨t, _, f, _, reported⟩ | reported | ⟨m, _, reported⟩
  · obtain ⟨_, t, _, reported⟩ := mem_withEarlier ids
    rcases List.mem_append.mp reported with table | field
    · split at table <;> simp [SchemaError.nameTaken] at table
    · obtain ⟨_, f, _, reported⟩ := mem_withEarlier field
      rw [repeatedField] at reported
      split at reported <;> simp [SchemaError.nameTaken] at reported
  · exact reference t f reported
  · obtain ⟨earlier, r, _, reported⟩ := mem_withEarlier reported
    exact relationship earlier r reported
  · simp [metricProblems, SchemaError.nameTaken] at reported

end Project

namespace Session
open Project

variable {s : Session} {id : String} {patch : TablePatch} {fields : List Field} {t : Table}

theorem commit_ne_nameTaken (p : Project) (now : Timestamp) (field name table : String) :
    s.commit p now ≠ .error (.nameTaken field name table) := by
  intro refused
  unfold commit at refused
  split at refused
  · rename_i error rest found
    refine nameTaken_not_mem_inconsistencies p field name table (found ▸ ?_)
    rw [Except.error.inj refused]
    exact List.mem_cons_self
  · contradiction

/-- An edit of a table is refused for a rename exactly if a change of a key clashes. -/
theorem updateTable_nameTaken_iff (keyed : s.project.Keyed) (located : s.project.table? id = some t)
    (distinct : ((patch.fields.on t.fields).map (·.id)).Nodup)
    (named : patch.name.isSet → Name.tableProblem? (patch.name.on t.name) = none) (now : Timestamp) :
    (∃ field name table, s.run now (.updateTable id patch) = .error (.nameTaken field name table)) ↔
      Clashing s.policy now (patchEffects t patch.fields).2 (s.project.patched t patch now) := by
  have patched : s.project.patchTable s.policy id patch now = _ :=
    patchTable_eq s.policy located named
  rcases propagateAll_cases (patched_keyed keyed located now distinct) s.policy now
    (patchEffects t patch.fields).2 with ⟨quiet, done⟩ | ⟨clashing, field, name, table, refused⟩
  · refine iff_of_false ?_ quiet
    rintro ⟨field, name, table, refused⟩
    rcases apply_eq_error_iff.mp refused with early | ⟨_, p, _, late⟩
    · rw [patched, done] at early
      simp only [bind_eq_error_iff, requireTable_eq_error_iff] at early
      obtain impossible | ⟨_, _, ⟨_, impossible⟩ | ⟨_, _, impossible⟩⟩ := early <;> contradiction
    · exact commit_ne_nameTaken p now field name table late
  · refine iff_of_true ⟨field, name, table, apply_eq_error_iff.mpr (.inl ?_)⟩ clashing
    rw [patched, refused]
    rfl

/-- In every session a new field list with distinct identifiers is refused for a rename exactly if,
with all changed keys propagated, a field that was renamed has the name of another field of its table,
or if it has that name in passing, until a later key renames the other field. -/
theorem run_updateTable_nameTaken_iff (reachable : Reachable s)
    (located : s.project.table? id = some t) (given : patch.fields = .set fields)
    (distinct : (fields.map (·.id)).Nodup)
    (named : patch.name.isSet → Name.tableProblem? (patch.name.on t.name) = none) (now : Timestamp) :
    let changes := changedKeys t fields
    let p := s.project.patched t patch now
    (∃ field name table, s.run now (.updateTable id patch) = .error (.nameTaken field name table)) ↔
      (∃ l m, Renamed s.policy now changes p l ∧ (p.alignAll s.policy now changes).SameName l m) ∨
        ClashingInPassing s.policy now changes p := by
  intro changes p
  have same : (patchEffects t patch.fields).2 = changes := by rw [given]; rfl
  rw [updateTable_nameTaken_iff reachable.sound.consistent.toKeyed located (by rwa [given]) named, same]
  exact clashing_iff (changedKeys_nodup t distinct)

/-! ### Keys that swap their names -/

/-- Regions with a key of two fields, and stores that refer to both under the same names. -/
def pairedKeys : Project :=
  { Project.empty "P" "shop" "main" "sales" newYear with
    tables :=
      [ { Table.plain "R" "regions" newYear with
          fields := [(Field.plain "K" "country" .int).asPrimaryKey,
            (Field.plain "N" "number" .int).asPrimaryKey] },
        { Table.plain "S" "stores" newYear with
          fields := [(Field.plain "L" "country" .int).referring ⟨"R", "K"⟩,
            (Field.plain "M" "number" .int).referring ⟨"R", "N"⟩] } ] }

def pairedRegions : Session :=
  ⟨pairedKeys.recordOrigins, .explicit⟩

theorem pairedRegions_reachable : Reachable pairedRegions :=
  .start (.opened (show open? .explicit pairedKeys = .ok _ from rfl))

def swappedNames : List Field :=
  [(Field.plain "K" "number" .int).asPrimaryKey, (Field.plain "N" "country" .int).asPrimaryKey]

theorem swappedNames_refused :
    pairedRegions.run newYear (.updateTable "R" (.ofFields swappedNames)) =
      .error (.nameTaken "L" "number" "stores") :=
  rfl

theorem swappedNames_differ :
    ∃ t, pairedRegions.project.table? "R" = some t ∧
      ∀ u ∈ ((pairedRegions.project.patched t (.ofFields swappedNames) newYear).alignAll
        pairedRegions.policy newYear (changedKeys t swappedNames)).tables, u.NamesDiffer :=
  ⟨_, rfl, by decide⟩

/-- The new names of the keys are refused, though in the end no two fields would share a name. -/
theorem swappedNames_refused_without_clash :
    Reachable pairedRegions ∧ (swappedNames.map (·.id)).Nodup ∧
      (∀ f ∈ swappedNames, f.reference = none ∧ Name.fieldProblem? f.name = none) ∧
      (∃ field name table,
        pairedRegions.run newYear (.updateTable "R" (.ofFields swappedNames)) =
          .error (.nameTaken field name table)) ∧
      ∃ t, pairedRegions.project.table? "R" = some t ∧
        let changes := changedKeys t swappedNames
        let p := pairedRegions.project.patched t (.ofFields swappedNames) newYear
        ¬ ∃ l m, Renamed pairedRegions.policy newYear changes p l ∧
          (p.alignAll pairedRegions.policy newYear changes).SameName l m := by
  obtain ⟨t, located, differ⟩ := swappedNames_differ
  refine ⟨pairedRegions_reachable, by decide, by decide, ⟨_, _, _, swappedNames_refused⟩, t,
    located, ?_⟩
  rintro _ _ ⟨l, m, _, same⟩
  exact not_sameName differ same

/-- The field of stores that is renamed first has the name of the other until that is renamed too. -/
theorem swappedNames_clash_in_passing :
    Reachable pairedRegions ∧ (swappedNames.map (·.id)).Nodup ∧
      (TablePatch.ofFields swappedNames).fields = .set swappedNames ∧
      ∃ t, pairedRegions.project.table? "R" = some t ∧
        ((TablePatch.ofFields swappedNames).name.isSet →
          Name.tableProblem? ((TablePatch.ofFields swappedNames).name.on t.name) = none) ∧
        ClashingInPassing pairedRegions.policy newYear (changedKeys t swappedNames)
          (pairedRegions.project.patched t (.ofFields swappedNames) newYear) := by
  obtain ⟨t, located, differ⟩ := swappedNames_differ
  have distinct : (swappedNames.map (·.id)).Nodup := by decide
  have named : (TablePatch.ofFields swappedNames).name.isSet →
      Name.tableProblem? ((TablePatch.ofFields swappedNames).name.on t.name) = none := nofun
  have found := (run_updateTable_nameTaken_iff pairedRegions_reachable located rfl distinct named
    newYear).mp ⟨_, _, _, swappedNames_refused⟩
  refine ⟨pairedRegions_reachable, distinct, rfl, t, located, named, found.resolve_left ?_⟩
  rintro ⟨l, m, _, same⟩
  exact not_sameName differ same

end Session
end LakeSchema
