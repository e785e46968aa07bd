import LakeSchema.Proofs.Edit.Patch
import LakeSchema.Proofs.ForeignKey.NameClash

/-!
# Renames within the table of a key

A linked foreign key that takes the name of its key may not clash with another field of its table. In
the table of the key itself it always would, since the key bears that name already. So a successful
edit leaves the fields of its table under the names that it was given (`patchTable_names`).
-/

namespace LakeSchema

namespace Project

variable {p q : Project} {policy : OriginPolicy} {now : Timestamp} {l : Location} {id : String}

/-- A change that clashes with no name keeps all names in the table of the key. -/
theorem propagate_names {change : KeyChange} (keyed : p.Keyed)
    (named : (p.field? change.key).map (·.name) = some change.next.name)
    (quiet : ((p.propagate policy change now).1.filter (·.renamed)).findSome?
      (p.propagate policy change now).2.nameClash? = none)
    (inside : l.table = change.table) :
    ((p.propagate policy change now).2.field? l).map (·.name) = (p.field? l).map (·.name) := by
  by_contra other
  have renames : p.Renames policy change l := by
    by_contra kept
    exact other (propagate_name now kept)
  -- The key is in the same table, bears the name as well and clashes with the field.
  obtain ⟨f, found, taken⟩ := Option.map_eq_some_iff.mp (renames.name now)
  have key := (propagate_name now fun renamed : p.Renames policy change change.key =>
    renamed.2.1 rfl).trans named
  obtain ⟨g, known, called⟩ := Option.map_eq_some_iff.mp key
  have same : (p.propagate policy change now).2.SameName l change.key :=
    ⟨renames.2.1, inside, f, g, found, known, by simp [taken, called, Text.sameIgnoringCase]⟩
  rcases nameClashes_cases keyed change policy now with ⟨_, silent⟩ | ⟨_, _, _, _, _, _, reported⟩
  · exact silent l _ renames same
  · rw [quiet] at reported
    contradiction

theorem propagateAll_names {changes : List KeyChange} (keyed : p.Keyed)
    (own : ∀ change ∈ changes, change.table = id ∧
      (p.field? change.key).map (·.name) = some change.next.name)
    (done : propagateAll policy now changes p = .ok q) (inside : l.table = id) :
    (q.field? l).map (·.name) = (p.field? l).map (·.name) := by
  induction changes generalizing p with
  | nil =>
    obtain rfl := Except.ok.inj done
    rfl
  | cons change rest ih =>
    rw [List.forall_mem_cons] at own
    obtain ⟨⟨here, named⟩, others⟩ := own
    simp only [propagateAll] at done
    split at done
    · contradiction
    · rename_i quiet
      have kept {l : Location} (inside : l.table = id) :=
        propagate_names keyed named quiet (inside.trans here.symm)
      obtain ⟨g, h, rewriting, _, propagated⟩ := propagate_effect change policy now p
      refine (ih (rewriting.keyed (by rw [propagated]) keyed) (fun other member => ?_) done).trans
        (kept inside)
      obtain ⟨there, known⟩ := others other member
      exact ⟨there, (kept there).trans known⟩

/-- The fields of an edited table have the names that they were given. -/
theorem patchTable_names {patch : TablePatch} {answer t : Table} {f : Field} (keyed : q.Keyed)
    (located : p.table? id = some t) (done : p.patchTable policy id patch now = .ok (answer, q))
    (listed : f ∈ patch.fields.on t.fields) :
    (q.field? ⟨id, f.id⟩).map (·.name) = some f.name := by
  obtain ⟨u, again, _, propagated, _⟩ := patchTable_steps done
  obtain rfl : t = u := Option.some_inj.mp (located.symm.trans again)
  obtain rfl : t.id = id := table?_id located
  let written := p.updateTable t.id fun _ => (patch.apply t).touch now
  let released := written.releaseAll t.id (patchEffects t patch.fields).1 now
  obtain ⟨g, kept, releases, equal⟩ :=
    releaseAll_effect t.id (patchEffects t patch.fields).1 now written
  obtain ⟨_, _, rewrites, _, rfl⟩ := propagateAll_effect propagated
  have keyedReleased : released.Keyed := rewrites.keyed_before rfl keyed
  have keyedWritten : written.Keyed := releases.keyed_before (congrArg Project.tables equal)
    keyedReleased
  have inside : (patch.apply t).touch now ∈ written.tables :=
    List.mem_of_find?_eq_some (find?_updateFirst_of_some located (beq_self_eq_true t.id))
  have given {key : Field} (listed : key ∈ patch.fields.on t.fields) :
      (released.field? ⟨t.id, key.id⟩).map (·.name) = some key.name := by
    have found : written.field? ⟨t.id, key.id⟩ = some key :=
      field?_of_mem (t := (patch.apply t).touch now) keyedWritten inside listed
    rw [releases.field? (p := written) (congrArg Project.tables equal), found, Option.map_some,
      Option.map_some, Field.detachWhen_name]
  refine (propagateAll_names keyedReleased (fun change member => ?_) propagated rfl).trans
    (given listed)
  obtain ⟨own, listed⟩ := changed_of_mem member
  exact ⟨own, by rw [KeyChange.key, own]; exact given listed⟩

end Project
end LakeSchema
