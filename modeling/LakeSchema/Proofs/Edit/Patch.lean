import LakeSchema.Proofs.Edit.Views
import LakeSchema.Proofs.ForeignKey.Propagation

/-!
# What the edit of a table does

Every edit of a table or of a field writes one table; releasing the fields that leave it and bringing
foreign keys in line then rewrites fields in place. `Rewriting` says what such steps keep, and
`patchTable_effect` that a successful edit is a write followed by a rewriting.
-/

namespace LakeSchema

namespace Field

variable {f : Field}

theorem detachWhen_detachWhen (first second : Field → Bool) (f : Field) :
    (f.detachWhen first).detachWhen second = f.detachWhen fun g => first g || second g := by
  by_cases met : first f
  · simp [detachWhen, met, detach]
  · simp [detachWhen, met]

theorem follow_origin (f : Field) (policy : OriginPolicy) (prior next : Field) :
    (f.follow policy prior next).origin = f.origin := by
  unfold follow
  split <;> rfl

theorem follow_name_cases (f : Field) (policy : OriginPolicy) (prior next : Field) :
    (f.follow policy prior next).name = f.name ∨ (f.follow policy prior next).name = next.name := by
  unfold follow
  split
  · exact .inr rfl
  · exact .inl rfl

end Field

namespace Project

variable {p q : Project} {policy : OriginPolicy} {now : Timestamp} {g g' : Table → Table}
  {h h' : Location → Field → Field}

/-! ### Rewritings -/

/-- A change of fields in place. A table that it changes notes the time. -/
structure Rewriting (now : Timestamp) (g : Table → Table) (h : Location → Field → Field) : Prop
    extends Fieldwise g h where
  name : ∀ t, (g t).name = t.name
  stamped : ∀ t, g t = t ∨ (g t).updatedAt = now

namespace Rewriting

theorem refl (now : Timestamp) : Rewriting now (fun t => t) fun _ f => f where
  id _ := rfl
  fields t := (List.map_id t.fields).symm
  fieldId _ _ := rfl
  name _ := rfl
  stamped _ := .inl rfl

theorem trans (first : Rewriting now g h) (second : Rewriting now g' h') :
    Rewriting now (fun t => g' (g t)) fun l f => h' l (h l f) where
  id t := (second.id _).trans (first.id t)
  fields t := by
    rw [second.fields, first.fields, first.id, List.map_map]
    exact List.map_congr_left fun f _ => by rw [Function.comp_apply, first.fieldId]
  fieldId l f := (second.fieldId l _).trans (first.fieldId l f)
  name t := (second.name _).trans (first.name t)
  stamped t := by
    rcases second.stamped (g t) with same | noted
    · rw [same]
      exact first.stamped t
    · exact .inr noted

end Rewriting

theorem detachWhere_rewriting (condition : Field → Bool) (now : Timestamp) :
    Rewriting now (fun t => t.detachWhere condition now) fun _ => Field.detachWhen condition where
  toFieldwise := Table.detachWhere_fieldwise condition now
  name t := by
    unfold Table.detachWhere
    split <;> rfl
  stamped t := by
    unfold Table.detachWhere
    split
    · exact .inr rfl
    · exact .inl rfl

theorem syncedTable_rewriting (change : KeyChange) (policy : OriginPolicy) (now : Timestamp) :
    Rewriting now (change.syncedTable policy now) (change.effect policy) where
  toFieldwise := change.syncedTable_fieldwise policy now
  name t := by
    unfold KeyChange.syncedTable
    split <;> rfl
  stamped t := by
    unfold KeyChange.syncedTable
    split
    · exact .inr rfl
    · exact .inl rfl

/-! ### The steps of an edit -/

/-- Whether a field refers to one of some fields of a table. -/
def refersToAny (table : String) (fields : List Field) (f : Field) : Bool :=
  fields.any fun key => f.refersTo ⟨table, key.id⟩

theorem releaseAll_effect (table : String) (fields : List Field) (now : Timestamp) (p : Project) :
    ∃ g kept, Rewriting now g (fun _ => Field.detachWhen (refersToAny table fields)) ∧
      p.releaseAll table fields now =
        { p with tables := p.tables.map g, relationships := p.relationships.filter kept } := by
  induction fields generalizing p with
  | nil =>
    refine ⟨fun t => t, fun _ => true, .refl now, ?_⟩
    rw [List.map_id', List.filter_true]
    rfl
  | cons key rest ih =>
    obtain ⟨g, kept, rewriting, released⟩ := ih (p.releaseField ⟨table, key.id⟩ now)
    have both := (detachWhere_rewriting (·.refersTo ⟨table, key.id⟩) now).trans rewriting
    simp only [Field.detachWhen_detachWhen] at both
    refine ⟨_, fun r => kept r && !r.touchesField ⟨table, key.id⟩, both, ?_⟩
    change (p.releaseField ⟨table, key.id⟩ now).releaseAll table rest now = _
    rw [released, releaseField]
    simp only [List.map_map, List.filter_filter]
    rfl

/-- A change of fields that keeps references and origins, and renames fields after changed keys if at
all. -/
structure Follows (changes : List KeyChange) (h : Location → Field → Field) : Prop where
  reference : ∀ l f, (h l f).reference = f.reference
  origin : ∀ l f, (h l f).origin = f.origin
  name : ∀ l f, (h l f).name = f.name ∨ ∃ change ∈ changes, (h l f).name = change.next.name

theorem Follows.refl (changes : List KeyChange) : Follows changes fun _ f => f :=
  ⟨fun _ _ => rfl, fun _ _ => rfl, fun _ _ => .inl rfl⟩

theorem Follows.trans {first others : List KeyChange} (before : Follows first h)
    (after : Follows others h') : Follows (first ++ others) fun l f => h' l (h l f) where
  reference l f := (after.reference l _).trans (before.reference l f)
  origin l f := (after.origin l _).trans (before.origin l f)
  name l f := by
    rcases after.name l (h l f) with same | ⟨change, member, named⟩
    · rw [same]
      exact (before.name l f).imp_right fun ⟨change, member, named⟩ =>
        ⟨change, List.mem_append_left others member, named⟩
    · exact .inr ⟨change, List.mem_append_right first member, named⟩

theorem effect_follows (change : KeyChange) (policy : OriginPolicy) :
    Follows [change] (change.effect policy) where
  reference l f := (change.effect_keeps policy l f).2.1
  origin l f := by
    unfold KeyChange.effect
    split
    · exact f.follow_origin policy change.prior change.next
    · rfl
  name l f := by
    unfold KeyChange.effect
    split
    · exact (f.follow_name_cases policy change.prior change.next).imp_right fun named =>
        ⟨change, List.mem_singleton_self change, named⟩
    · exact .inl rfl

theorem propagate_effect (change : KeyChange) (policy : OriginPolicy) (now : Timestamp)
    (p : Project) :
    ∃ g h, Rewriting now g h ∧ Follows [change] h ∧
      (p.propagate policy change now).2 = { p with tables := p.tables.map g } := by
  by_cases changed : change.prior.shapeChanged change.next
  · exact ⟨_, _, syncedTable_rewriting change policy now, effect_follows change policy,
      by rw [propagate, if_pos changed]⟩
  · exact ⟨_, _, .refl now, .refl _, by rw [propagate, if_neg changed, List.map_id']⟩

theorem propagateAll_effect {changes : List KeyChange}
    (done : propagateAll policy now changes p = .ok q) :
    ∃ g h, Rewriting now g h ∧ Follows changes h ∧ q = { p with tables := p.tables.map g } := by
  induction changes generalizing p with
  | nil =>
    obtain rfl := Except.ok.inj done
    exact ⟨_, _, .refl now, .refl _, by rw [List.map_id']⟩
  | cons change rest ih =>
    simp only [propagateAll] at done
    split at done
    · contradiction
    · obtain ⟨g, h, first, follows, propagated⟩ := propagate_effect change policy now p
      rw [propagated] at done
      obtain ⟨g', h', second, later, rfl⟩ := ih done
      refine ⟨_, _, first.trans second, follows.trans later, ?_⟩
      rw [List.map_map]
      rfl

/-! ### The whole edit -/

/-- What follows from the new field list of a table, for the fields of all tables. -/
structure Aftermath (now : Timestamp) (t : Table) (patch : TablePatch) (g : Table → Table)
    (h : Location → Field → Field) : Prop extends Rewriting now g h where
  reference : ∀ l f, (h l f).reference =
    (f.detachWhen (refersToAny t.id (patchEffects t patch.fields).1)).reference
  origin : ∀ l f, (h l f).origin =
    (f.detachWhen (refersToAny t.id (patchEffects t patch.fields).1)).origin
  fieldName : ∀ l f, (h l f).name = f.name ∨
    ∃ key ∈ patch.fields.on t.fields, (h l f).name = key.name

theorem changed_of_mem {t : Table} {change : KeyChange} {fields : Change (List Field)}
    (member : change ∈ (patchEffects t fields).2) :
    change.table = t.id ∧ change.next ∈ fields.on t.fields := by
  cases fields with
  | keep => exact (List.not_mem_nil member).elim
  | set fields =>
    obtain ⟨f, present, known⟩ := List.mem_filterMap.mp member
    obtain ⟨_, _, rfl⟩ := Option.map_eq_some_iff.mp known
    exact ⟨rfl, (List.mem_filter.mp present).1⟩

/-- The new table is written, fields that leave it are released, and changed keys are propagated. -/
theorem patchTable_steps {id : String} {patch : TablePatch} {answer : Table}
    (done : p.patchTable policy id patch now = .ok (answer, q)) :
    ∃ t, p.table? id = some t ∧
      (patch.name.isSet → Name.tableProblem? (patch.name.on t.name) = none) ∧
      propagateAll policy now (patchEffects t patch.fields).2
        ((p.updateTable id fun _ => (patch.apply t).touch now).releaseAll id
          (patchEffects t patch.fields).1 now) = .ok q ∧
      q.table? id = some answer := by
  simp only [patchTable, bind_eq_ok_iff, requireTable_eq_ok_iff] at done
  obtain ⟨t, located, done⟩ := done
  obtain ⟨named, done⟩ := optional_eq_ok_iff.mp done
  simp only [bind_eq_ok_iff, requireTable_eq_ok_iff] at done
  obtain ⟨synced, propagated, result, found, done⟩ := done
  obtain ⟨rfl, rfl⟩ := Prod.mk.inj (Except.ok.inj done)
  exact ⟨t, located, fun given => Name.accept_eq_ok_iff.mp (named given), propagated, found⟩

/-- A successful edit writes the table and rewrites fields in place; it answers with the table that
is left. -/
theorem patchTable_effect {id : String} {patch : TablePatch} {answer : Table}
    (done : p.patchTable policy id patch now = .ok (answer, q)) :
    ∃ t g h kept, p.table? id = some t ∧
      (patch.name.isSet → Name.tableProblem? (patch.name.on t.name) = none) ∧
      Aftermath now t patch g h ∧ answer = g ((patch.apply t).touch now) ∧
      q = { p with
        tables := (updateFirst (·.id == id) (fun _ => (patch.apply t).touch now) p.tables).map g
        relationships := p.relationships.filter kept } ∧
      q.table? id = some answer := by
  obtain ⟨t, located, named, propagated, found⟩ := patchTable_steps done
  obtain ⟨g, kept, first, released⟩ := releaseAll_effect id (patchEffects t patch.fields).1 now
    (p.updateTable id fun _ => (patch.apply t).touch now)
  rw [released] at propagated
  obtain ⟨g', h, second, follows, rfl⟩ := propagateAll_effect propagated
  have rewriting := first.trans second
  have same : t.id = id := table?_id located
  have aftermath : Aftermath now t patch (fun t => g' (g t)) fun l f =>
      h l (f.detachWhen (refersToAny id (patchEffects t patch.fields).1)) :=
    { rewriting with
      reference := fun l f => same ▸ follows.reference l _
      origin := fun l f => same ▸ follows.origin l _
      fieldName := fun l f =>
        (follows.name l _).imp (·.trans Field.detachWhen_name) fun ⟨change, member, named⟩ =>
          ⟨change.next, (changed_of_mem member).2, named⟩ }
  refine ⟨t, _, _, kept, located, named, aftermath, ?_, ?_, found⟩
  · have written : (p.updateTable id fun _ => (patch.apply t).touch now).table? id =
        some ((patch.apply t).touch now) :=
      find?_updateFirst_of_some located (beq_iff_eq.mpr same)
    rw [rewriting.toFieldwise.table? (by rw [List.map_map]; rfl), written] at found
    exact (Option.some.inj found).symm
  · rw [List.map_map]
    rfl

/-! ### New tables and fields -/

theorem addTable_effect {spec : TableSpec} {answer : Table}
    (done : p.addTable spec now = .ok (answer, q)) :
    Name.tableProblem? spec.name = none ∧ (∀ f ∈ spec.fields, Name.fieldProblem? f.name = none) ∧
      p.table? spec.id = none ∧ answer = spec.table now ∧
      q = { p with tables := p.tables ++ [answer] } := by
  simp only [addTable, bind_eq_ok_iff, Name.accept_eq_ok_iff] at done
  obtain ⟨_, named, ⟨⟩, fields, done⟩ := done
  split at done
  · contradiction
  · rename_i new
    obtain ⟨rfl, rfl⟩ := Prod.mk.inj (Except.ok.inj done)
    refine ⟨named, fun f member => ?_, by simpa using new, rfl, rfl⟩
    exact Name.accept_eq_ok_iff.mp (forM_eq_ok_iff.mp fields f member)

theorem addField_effect {table : String} {f answer : Field} (keyed : p.Keyed)
    (done : p.addField policy table f now = .ok (answer, q)) :
    ∃ t, p.table? table = some t ∧ Name.fieldProblem? f.name = none ∧ t.field? f.id = none ∧
      answer = f ∧
      q = p.updateTable table fun u => { u with fields := t.fields ++ [f], updatedAt := now } := by
  simp only [addField, bind_eq_ok_iff, requireTable_eq_ok_iff, Name.accept_eq_ok_iff] at done
  obtain ⟨t, located, _, named, done⟩ := done
  split at done
  · contradiction
  · rename_i new
    have absent : t.field? f.id = none := by simpa using new
    -- The list before is a part of the list after: no key changes and no field leaves.
    have changed : changedKeys t (t.fields ++ [f]) = [] := by
      have old : changedKeys t t.fields = [] :=
        changedKeys_of_subset (keyed.fields t (List.mem_of_find?_eq_some located)) fun _ inside => inside
      rw [changedKeys_append, old, List.nil_append]
      exact List.filterMap_eq_nil_iff.mpr fun g member => by
        obtain rfl := List.mem_singleton.mp (List.mem_filter.mp member).1
        rw [absent]
        rfl
    have leaving : leavingFields t (t.fields ++ [f]) = [] :=
      List.filter_eq_nil_iff.mpr fun g member => by
        simpa using fun others => (others g member rfl).elim
    obtain ⟨⟨u, r⟩, patched, done⟩ := bind_eq_ok_iff.mp done
    obtain ⟨rfl, rfl⟩ := Prod.mk.inj (Except.ok.inj done)
    rw [patchTable_ofFields policy located, changed, leaving] at patched
    obtain ⟨synced, propagated, patched⟩ := bind_eq_ok_iff.mp patched
    obtain ⟨_, _, patched⟩ := bind_eq_ok_iff.mp patched
    obtain ⟨_, rfl⟩ := Prod.mk.inj (Except.ok.inj patched)
    exact ⟨t, located, named, absent, rfl, (Except.ok.inj propagated).symm⟩

theorem updateField_steps {table id : String} {patch : FieldPatch} {answer : Field}
    (done : p.updateField policy table id patch now = .ok (answer, q)) :
    ∃ t f u, p.table? table = some t ∧ t.field? id = some f ∧
      Name.fieldProblem? (patch.apply f).name = none ∧
      p.patchTable policy table (.ofFields (updateFirst (·.id == id) patch.apply t.fields)) now =
        .ok (u, q) ∧
      u.field? id = some answer := by
  simp only [updateField, bind_eq_ok_iff, requireTable_eq_ok_iff, requireField_eq_ok_iff,
    Name.accept_eq_ok_iff] at done
  obtain ⟨t, located, f, present, _, named, ⟨u, r⟩, patched, g, found, done⟩ := done
  obtain ⟨rfl, rfl⟩ := Prod.mk.inj (Except.ok.inj done)
  exact ⟨t, f, u, located, present, named, patched, found⟩

end Project
end LakeSchema
