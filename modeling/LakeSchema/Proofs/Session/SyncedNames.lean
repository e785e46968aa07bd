import LakeSchema.Proofs.Check.FieldNames
import LakeSchema.Proofs.Session.Connection
import LakeSchema.Proofs.Session.FieldEdit
import LakeSchema.Proofs.Session.Names

/-!
# Names that foreign keys take over

Edits compare names up to the case of ASCII letters, while the check of a table compares them in lower
case. So a foreign key that is renamed after its key, or made for it, may get a name that the check
finds twice: `run_repeatsName_iff` says exactly when.
-/

namespace LakeSchema

variable {policy : OriginPolicy} {k l : Location} {key f g : Field} {patch : FieldPatch}
  {now : Timestamp} {t u : Table} {c : Connection}

/-- The edit of the field at `k` renames a foreign key of the table. Another field has the new name in
lower case, though not up to the case of ASCII letters. -/
def Table.RenamedAlike (t : Table) (policy : OriginPolicy) (k : Location) (prior next : Field) :
    Prop :=
  ∃ f ∈ t.fields, f.Renamed policy k prior next ⟨t.id, f.id⟩ ∧
    ∃ g ∈ t.fields, g.id ≠ f.id ∧ Name.Alike g.name next.name ∧
      ¬ Text.sameIgnoringCase g.name next.name

/-- A field of the table has the name in lower case, but none up to the case of ASCII letters. -/
def Table.NamedAlike (t : Table) (name : String) : Prop :=
  (∀ f ∈ t.fields, ¬ Text.sameIgnoringCase f.name name) ∧ ∃ f ∈ t.fields, Name.Alike f.name name

/-- The edit of a key gives other fields its name, or leaves them theirs. -/
theorem FieldPatch.effect_name (apart : l ≠ k) :
    (f.Renamed policy k key (patch.apply key) l ∧
        (patch.effect policy k key l f).name = (patch.apply key).name) ∨
      (¬ f.Renamed policy k key (patch.apply key) l ∧
        (patch.effect policy k key l f).name = f.name) := by
  rw [effect, if_neg apart]
  by_cases reached : f.Reached k key (patch.apply key) l
  · rw [if_pos reached, Field.follow_eq]
    by_cases linked : f.originUnder policy (some key.name) = .linked
    · by_cases same : f.name = (patch.apply key).name
      · refine .inr ⟨fun renamed => renamed.2.2 same, ?_⟩
        simp only [if_pos linked, same]
      · refine .inl ⟨⟨reached, linked, same⟩, ?_⟩
        simp only [if_pos linked]
    · refine .inr ⟨fun renamed => linked renamed.2.1, ?_⟩
      simp only [if_neg linked]
  · rw [if_neg reached]
    exact .inr ⟨fun renamed => reached renamed.1, rfl⟩

namespace Project

variable {p q : Project}

/-! ### Renamed foreign keys -/

theorem nameTaken_of_renamed (keyed : p.Keyed) (found : p.field? k = some key)
    (member : t ∈ p.tables) (first : f ∈ t.fields) (second : g ∈ t.fields) (apart : g.id ≠ f.id)
    (renamed : f.Renamed policy k key (patch.apply key) ⟨t.id, f.id⟩)
    (same : Text.sameIgnoringCase (patch.effect policy k key ⟨t.id, g.id⟩ g).name
      (patch.apply key).name) :
    p.NameTaken policy k key (patch.apply key) ⟨t.id, f.id⟩ ⟨t.id, g.id⟩ := by
  have other := field?_of_mem keyed member second
  exact ⟨fun equal => apart (congrArg Location.field equal).symm, rfl, f, g, _,
    field?_of_mem keyed member first, renamed, other, effect_edited found other, same⟩

/-- A table that repeats no name repeats one after the edit of a key elsewhere exactly if a foreign
key is renamed onto a name that differs from another one in letters beyond ASCII. -/
theorem table_repeatsName_iff (keyed : p.Keyed) (found : p.field? k = some key)
    (free : ∀ l m, ¬ p.NameTaken policy k key (patch.apply key) l m) (member : t ∈ p.tables)
    (elsewhere : t.id ≠ k.table) (once : ¬ t.RepeatsName) :
    (patch.table policy k key now t).RepeatsName ↔ t.RenamedAlike policy k key (patch.apply key) := by
  have apart (f : Field) : (⟨t.id, f.id⟩ : Location) ≠ k :=
    fun same => elsewhere (congrArg Location.table same)
  -- A field that is renamed has another name than each field that is too: they would clash.
  have single {f g : Field} (first : f ∈ t.fields) (second : g ∈ t.fields) (other : g.id ≠ f.id)
      (renamed : f.Renamed policy k key (patch.apply key) ⟨t.id, f.id⟩) :
      (patch.effect policy k key ⟨t.id, g.id⟩ g).name = g.name ∧
        ¬ Text.sameIgnoringCase g.name (patch.apply key).name := by
    have free := free ⟨t.id, f.id⟩ ⟨t.id, g.id⟩
    have taken := nameTaken_of_renamed keyed found member first second other renamed
    rcases FieldPatch.effect_name (apart g) with ⟨_, named⟩ | ⟨_, named⟩
    · exact (free (taken (by rw [named, Text.sameIgnoringCase, beq_self_eq_true]))).elim
    · exact ⟨named, fun same => free (taken (by rwa [named]))⟩
  have fields : (patch.table policy k key now t).fields =
      t.fields.map fun f => patch.effect policy k key ⟨t.id, f.id⟩ f := rfl
  rw [Table.repeatsName_iff, not_not, List.pairwise_map] at once
  constructor
  · intro repeats
    rw [Table.repeatsName_iff, fields, List.map_map, List.pairwise_map] at repeats
    by_contra none
    unfold Table.RenamedAlike at none
    push Not at none
    refine repeats ?_
    have distinct : t.fields.Pairwise fun f g => f.id ≠ g.id :=
      List.pairwise_map.mp (keyed.fields t member)
    refine (distinct.and once).imp_of_mem fun {f g} first second both alike => ?_
    obtain ⟨other, differ⟩ := both
    rw [Function.comp_apply, Function.comp_apply] at alike
    rcases FieldPatch.effect_name (apart f) with ⟨renamed, named⟩ | ⟨_, named⟩
    · obtain ⟨kept, unlike⟩ := single first second other.symm renamed
      rw [named, kept] at alike
      exact unlike (none f first renamed g second other.symm alike.symm)
    · rcases FieldPatch.effect_name (apart g) with ⟨renamed, named'⟩ | ⟨_, named'⟩
      · obtain ⟨kept, unlike⟩ := single second first other renamed
        rw [kept, named'] at alike
        exact unlike (none g second renamed f first other alike)
      · rw [named, named'] at alike
        exact differ alike
  · rintro ⟨f, first, renamed, g, second, other, alike, _⟩
    obtain ⟨kept, _⟩ := single first second other renamed
    have named : (patch.effect policy k key ⟨t.id, f.id⟩ f).name = (patch.apply key).name := by
      rcases FieldPatch.effect_name (apart f) with ⟨_, named⟩ | ⟨idle, _⟩
      · exact named
      · exact (idle renamed).elim
    have fieldwise := patch.table_fieldwise policy k key now
    have distinct : patch.effect policy k key ⟨t.id, g.id⟩ g ≠
        patch.effect policy k key ⟨t.id, f.id⟩ f := by
      intro same
      have ids := congrArg Field.id same
      rw [fieldwise.fieldId, fieldwise.fieldId] at ids
      exact other ids
    refine Table.repeatsName_of_alike ?_ ?_ distinct ?_
    · rw [fields]
      exact List.mem_map_of_mem second
    · rw [fields]
      exact List.mem_map_of_mem first
    · rwa [kept, named]

/-! ### Connected keys -/

theorem forall_updateTable_iff {id : String} {good : Table → Prop}
    (located : p.table? id = some t) (named : u.id = t.id) (before : ∀ t ∈ p.tables, good t) :
    (∀ v ∈ (p.updateTable id fun _ => u).tables, good v) ↔ good u := by
  constructor
  · exact fun after => after u (mem_replaceTable located named)
  · intro replaced v member
    rcases mem_updateFirst member with old | ⟨_, _, _, rfl⟩
    · exact before v old
    · exact replaced

theorem connectable_repeatsName_iff (once : ¬ t.RepeatsName) :
    (connectable t c key).2.RepeatsName ↔ t.NamedAlike key.name := by
  unfold connectable
  split
  · rename_i base found
    have same : (updateFirst (·.id == base.id) (·.adopt key) t.fields).map (·.name) =
        t.fields.map (·.name) := updateFirst_map_key fun _ => rfl
    rw [Table.repeatsName_congr (t := t) same]
    unfold Table.fieldNamed? at found
    refine iff_of_false once fun ⟨absent, _⟩ => ?_
    have same := List.find?_some (p := fun f : Field => Text.sameIgnoringCase f.name key.name) found
    exact absent base (List.mem_of_find?_eq_some found) same
  · rename_i absent
    have apart : ∀ f ∈ t.fields, ¬ Text.sameIgnoringCase f.name key.name := by
      simpa [Table.fieldNamed?] using absent
    have names : (t.fields ++ [keyTwin c.newField key]).map (·.name) =
        t.fields.map (·.name) ++ [key.name] := by
      rw [List.map_append]
      rfl
    rw [Table.repeatsName_iff, not_not] at once
    rw [Table.repeatsName_iff, names, List.pairwise_append]
    constructor
    · intro repeats
      refine ⟨apart, ?_⟩
      by_contra none
      push Not at none
      refine repeats ⟨once, List.pairwise_singleton _ _, fun a member b single => ?_⟩
      obtain ⟨f, present, rfl⟩ := List.mem_map.mp member
      obtain rfl := List.mem_singleton.mp single
      exact none f present
    · rintro ⟨_, f, member, alike⟩ ⟨_, _, unlike⟩
      exact unlike f.name (List.mem_map_of_mem member) key.name (List.mem_singleton_self _) alike

theorem forall_repeatsName_congr {ts us : List Table}
    (same : us.map Table.names = ts.map Table.names) :
    (∀ u ∈ us, ¬ u.RepeatsName) ↔ ∀ t ∈ ts, ¬ t.RepeatsName :=
  forall_names_congr (fun names => names.2.Pairwise fun a b => ¬ Name.Alike a b)
    (fun _ => Table.repeatsName_iff.not_left) same

theorem linked_names (p : Project) (spec : RelationshipSpec) (now : Timestamp) :
    (p.linked spec now).tables.map Table.names = p.tables.map Table.names := by
  refine updateFirst_map_key fun t => congrArg (Prod.mk t.name) ?_
  exact updateFirst_map_key fun _ => rfl

end Project

namespace Session
open Project

variable {s next : Session} {outcome : Outcome}

/-- An edit that is done takes no name, and the tables are those with the field patched. -/
theorem run_updateField_tables {table id : String} (sound : s.Sound)
    (done : s.run now (.updateField table id patch) = .ok (outcome, next)) :
    ∃ key, s.project.field? ⟨table, id⟩ = some key ∧
      (∀ l m, ¬ s.project.NameTaken s.policy ⟨table, id⟩ key (patch.apply key) l m) ∧
      next.project.tables = s.project.tables.map (patch.table s.policy ⟨table, id⟩ key now) := by
  obtain ⟨answer, q, edited, committed, _⟩ := apply_eq_ok_iff.mp done
  rcases s.project.updateField_cases sound.consistent.toKeyed s.policy table id patch now with
    ⟨_, _, refused⟩ | ⟨fine, key, found, equal⟩
  · rw [refused] at edited
    contradiction
  · rw [equal] at edited
    obtain ⟨_, rfl⟩ := Prod.mk.inj (Except.ok.inj edited)
    rw [commit_fieldPatched sound found patch now] at committed
    obtain rfl := Except.ok.inj committed
    refine ⟨key, found, fun l m taken => ?_, rfl⟩
    cases reported : Name.fieldProblem? (patch.apply key).name with
    | some problem => exact fine _ (.unusable found reported)
    | none =>
      have ⟨_, _, f, _, _, present, _⟩ := taken
      obtain ⟨t, located, _⟩ := Option.bind_eq_some_iff.mp present
      exact fine _ (.taken found reported taken located)

theorem run_connect_names (done : s.run now (.connect c) = .ok (outcome, next)) :
    ∃ t key, s.project.table? c.table = some t ∧ s.project.field? c.key = some key ∧
      next.project.tables.map Table.names =
        (s.project.updateTable c.table fun _ => (connectable t c key).2).tables.map Table.names := by
  obtain ⟨_, q, connected, committed, _⟩ := apply_eq_ok_iff.mp done
  obtain ⟨t, key, spec, located, found, _, linked⟩ := connect_steps connected
  obtain ⟨_, _, _, _, _, rfl⟩ := link_eq_ok_iff.mp linked
  exact ⟨t, key, located, found, (commit_names committed).trans (linked_names _ spec now)⟩

/-- In every session whose tables repeat no field name, the edit of a field brings a repetition to
another table exactly if it renames a foreign key onto a name that another field has in lower case
alone. A connection does so exactly if the table has a field of the key's name in lower case alone. -/
theorem run_repeatsName_iff (reachable : Reachable s)
    (once : ∀ t ∈ s.project.tables, ¬ t.RepeatsName) (now : Timestamp) :
    (∀ table id patch outcome next,
      s.run now (.updateField table id patch) = .ok (outcome, next) →
        ((∀ u ∈ next.project.tables, u.id ≠ table → ¬ u.RepeatsName) ↔
          ∀ key, s.project.field? ⟨table, id⟩ = some key →
            ∀ t ∈ s.project.tables, t.id ≠ table →
              ¬ t.RenamedAlike s.policy ⟨table, id⟩ key (patch.apply key))) ∧
    ∀ c outcome next, s.run now (.connect c) = .ok (outcome, next) →
      ((∀ u ∈ next.project.tables, ¬ u.RepeatsName) ↔
        ∀ t key, s.project.table? c.table = some t → s.project.field? c.key = some key →
          ¬ t.NamedAlike key.name) := by
  have keyed := reachable.sound.consistent.toKeyed
  constructor
  · intro table id patch outcome next done
    obtain ⟨key, found, free, tables⟩ := run_updateField_tables reachable.sound done
    have known (other : Field) : s.project.field? ⟨table, id⟩ = some other ↔ other = key := by
      rw [found, Option.some_inj, eq_comm]
    simp only [known, forall_eq, tables, List.forall_mem_map]
    refine forall₂_congr fun t member => forall_congr' fun elsewhere => not_congr ?_
    exact table_repeatsName_iff keyed found free member elsewhere (once t member)
  · intro c outcome next done
    obtain ⟨t, key, located, found, names⟩ := run_connect_names done
    have first := once t (List.mem_of_find?_eq_some located)
    rw [forall_repeatsName_congr names,
      forall_updateTable_iff located (connectable_id t c key) once, connectable_repeatsName_iff first]
    simp [located, found]

/-- Stores refer to regions and have another field, with an accent in its name. -/
def accentedNames : Project :=
  { Project.empty "P" "shop" "main" "sales" newYear with
    tables :=
      [ { Table.plain "R" "regions" newYear with
          fields := [(Field.plain "K" "id" .int).asPrimaryKey] },
        { Table.plain "S" "stores" newYear with
          fields := [(Field.plain "L" "id" .int).referring ⟨"R", "K"⟩, .plain "M" "É" .int] } ] }

def accentedStores : Session :=
  ⟨accentedNames.recordOrigins, .explicit⟩

theorem accentedStores_reachable : Reachable accentedStores :=
  .start (.opened (show open? .explicit accentedNames = .ok _ from rfl))

theorem accentedStores_once : ∀ t ∈ accentedStores.project.tables, ¬ t.RepeatsName := by
  decide +kernel

theorem accentedStores_renamed :
    ∃ outcome next,
      accentedStores.run noon (.updateField "R" "K" (.rename "é")) = .ok (outcome, next) ∧
        ∃ u ∈ next.project.tables, u.id ≠ "R" ∧ u.RepeatsName := by
  refine ⟨_, _, rfl, ?_⟩
  decide +kernel

/-- The foreign key of stores takes over the new name of its key, which the check of stores finds
twice. -/
theorem accentedStores_repeats :
    Reachable accentedStores ∧ (∀ t ∈ accentedStores.project.tables, ¬ t.RepeatsName) ∧
      (∃ key, accentedStores.project.field? ⟨"R", "K"⟩ = some key ∧ key.isPrimaryKey ∧
        key.name ≠ "é") ∧
      ∃ outcome next,
        accentedStores.run noon (.updateField "R" "K" (.rename "é")) = .ok (outcome, next) ∧
          ∃ u ∈ next.project.tables, u.id ≠ "R" ∧ u.RepeatsName :=
  ⟨accentedStores_reachable, accentedStores_once, ⟨_, rfl, rfl, by decide⟩, accentedStores_renamed⟩

theorem accentedStores_renamedAlike :
    Reachable accentedStores ∧ (∀ t ∈ accentedStores.project.tables, ¬ t.RepeatsName) ∧
      ∃ key t, accentedStores.project.field? ⟨"R", "K"⟩ = some key ∧
        t ∈ accentedStores.project.tables ∧
        t.RenamedAlike accentedStores.policy ⟨"R", "K"⟩ key ((FieldPatch.rename "é").apply key) := by
  obtain ⟨outcome, next, done, u, member, elsewhere, repeats⟩ := accentedStores_renamed
  obtain ⟨edits, _⟩ := run_repeatsName_iff accentedStores_reachable accentedStores_once noon
  refine ⟨accentedStores_reachable, accentedStores_once, ?_⟩
  by_contra none
  push Not at none
  have apart := (edits "R" "K" (.rename "é") outcome next done).mpr fun key found t present _ =>
    none key t found present
  exact apart u member elsewhere repeats

end Session
end LakeSchema
