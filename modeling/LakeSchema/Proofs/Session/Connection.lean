import LakeSchema.Proofs.Edit.Linking
import LakeSchema.Proofs.ForeignKey.NameClash
import LakeSchema.Proofs.Session.ChangeStamps

/-!
# Connected keys

A key is connected to a table through the first field there that bears its name, or through a new last
one. `run_connect` says when this succeeds, what becomes of the field, and that nothing else changes.
-/

namespace LakeSchema

variable {c : Connection} {key base f g : Field} {t u : Table} {before after : List Field}
  {now : Timestamp}

@[simp]
theorem Relationship.between_source (id : String) (source dependent : Location) (now : Timestamp) :
    (between id source dependent now).source = source :=
  rfl

@[simp]
theorem Relationship.between_fallback (id : String) (source dependent : Location)
    (now : Timestamp) : (between id source dependent now).fallback = dependent :=
  rfl

@[simp]
theorem Relationship.between_dependent (id : String) (source dependent : Location)
    (now : Timestamp) : (between id source dependent now).dependent = dependent := by
  rw [Relationship.dependent]
  dsimp only [between]
  split
  · rfl
  · rfl

/-- The field `g` is `base` in the shape of the key at `k`, and a linked foreign key on it. -/
structure Field.LinkedTo (base : Field) (k : Location) (key g : Field) : Prop where
  id : g.id = base.id
  name : g.name = base.name
  dataType : g.dataType = key.dataType
  typeParameters : g.typeParameters = key.typeParameters
  nullable : g.nullable = key.nullable
  defaultValue : g.defaultValue = base.defaultValue
  comment : g.comment = key.comment
  logicalName : g.logicalName = base.logicalName.or key.logicalName
  tags : ∀ name, g.tags.get? name = (base.tags.get? name).or (key.tags.get? name)
  isPrimaryKey : g.isPrimaryKey = base.isPrimaryKey
  isForeignKey : g.isForeignKey = true
  reference : g.reference = some (.ofTarget k)
  origin : g.origin = some .linked

theorem Field.adopt_linkedTo (base : Field) (k : Location) (key : Field) :
    base.LinkedTo k key ((base.adopt key).attach (.ofTarget k) .linked) :=
  ⟨rfl, rfl, rfl, rfl, rfl, rfl, rfl, rfl, fun name => TagMap.get?_merge name key.tags base.tags,
    rfl, rfl, rfl, rfl⟩

/-- Where a table takes a key, with the fields before and after: its first field of the name of the
key, or else a new one at the end. -/
inductive Table.Offers (t : Table) (c : Connection) (key : Field) :
    List Field → Field → List Field → Prop where
  | named {before after : List Field} {base : Field} (split : t.fields = before ++ base :: after)
      (same : Text.sameIgnoringCase base.name key.name)
      (first : ∀ f ∈ before, ¬ Text.sameIgnoringCase f.name key.name) :
    t.Offers c key before base after
  | new (absent : ∀ f ∈ t.fields, ¬ Text.sameIgnoringCase f.name key.name) :
    t.Offers c key t.fields (.plain c.newField key.name key.dataType) []

namespace Table.Offers

theorem mem (offers : t.Offers c key before base after) (member : f ∈ before ∨ f ∈ after) :
    f ∈ t.fields := by
  cases offers with
  | named split _ _ =>
    rw [split]
    rcases member with early | late
    · exact List.mem_append_left _ early
    · exact List.mem_append_right _ (List.mem_cons_of_mem base late)
  | new _ => exact member.resolve_right List.not_mem_nil

/-- No field is lost when the offered one is rewritten. -/
theorem keeps (offers : t.Offers c key before base after) (named : g.id = base.id) :
    ∀ f ∈ t.fields, ∃ h ∈ before ++ g :: after, h.id = f.id := by
  intro f member
  cases offers with
  | named split _ _ =>
    rw [split, List.mem_append, List.mem_cons] at member
    rcases member with early | rfl | late
    · exact ⟨f, List.mem_append_left _ early, rfl⟩
    · exact ⟨g, List.mem_append_right _ List.mem_cons_self, named⟩
    · exact ⟨f, List.mem_append_right _ (List.mem_cons_of_mem g late), rfl⟩
  | new _ => exact ⟨f, List.mem_append_left _ member, rfl⟩

theorem nodup (offers : t.Offers c key before base after) (named : g.id = base.id)
    (distinct : (t.fields.map (·.id)).Nodup) (fresh : t.field? c.newField = none) :
    ((before ++ g :: after).map (·.id)).Nodup := by
  cases offers with
  | named split _ _ =>
    rw [split] at distinct
    simpa [named] using distinct
  | new _ =>
    have apart : c.newField ∉ t.fields.map (·.id) := by
      simpa [Table.field?] using fresh
    rw [List.map_append, List.map_cons, List.map_nil, named]
    exact List.nodup_append.mpr ⟨distinct, List.nodup_singleton _, by
      rintro id member _ single rfl
      obtain rfl : id = c.newField := List.mem_singleton.mp single
      exact apart member⟩

theorem namesDiffer (offers : t.Offers c key before base after) (named : g.name = base.name)
    (differ : t.NamesDiffer) :
    (before ++ g :: after).Pairwise fun f h => Text.sameIgnoringCase f.name h.name = false := by
  cases offers with
  | named split _ _ =>
    rw [Table.NamesDiffer, split] at differ
    simpa [List.pairwise_append, named] using differ
  | new absent =>
    refine List.pairwise_append.mpr ⟨differ, List.pairwise_singleton _ g, fun f member h single => ?_⟩
    obtain rfl := List.mem_singleton.mp single
    rw [named]
    exact Bool.eq_false_iff.mpr (absent f member)

end Table.Offers

theorem connectable_offers (distinct : (t.fields.map (·.id)).Nodup)
    (fresh : t.field? c.newField = none) (key : Field) :
    ∃ before base after, t.Offers c key before base after ∧ (∀ f ∈ before, f.id ≠ base.id) ∧
      Project.connectable t c key =
        (base.id, { t with fields := before ++ base.adopt key :: after }) := by
  unfold Project.connectable
  split
  · rename_i base found
    obtain ⟨same, before, after, split, first⟩ := List.find?_eq_some_iff_append.mp found
    have apart : ∀ f ∈ before, f.id ≠ base.id := by
      rw [split, List.map_append, List.nodup_append] at distinct
      exact fun f member => distinct.2.2 _ (List.mem_map_of_mem member) _ List.mem_cons_self
    have written : Project.updateFirst (·.id == base.id) (·.adopt key) (before ++ base :: after) =
        before ++ base.adopt key :: after :=
      Project.updateFirst_append_cons (by simpa using apart) (by simp) _ _
    refine ⟨before, base, after, .named split same (by simpa using first), apart, ?_⟩
    rw [split, written]
  · rename_i absent
    have apart : ∀ f ∈ t.fields, f.id ≠ c.newField := by simpa [Table.field?] using fresh
    exact ⟨t.fields, _, [], .new (by simpa [Table.fieldNamed?] using absent), apart, rfl⟩

/-- The project `q` is `p` with a key connected by the relationship `r`: one field of one table is
rewritten or added, and the relationship is the last one. -/
inductive Project.Connected (c : Connection) (key : Field) (now : Timestamp) (p q : Project)
    (r : Relationship) : Prop where
  | intro {earlier later : List Table} {t : Table} {before after : List Field} {base g : Field}
      (tables : p.tables = earlier ++ t :: later) (table : t.id = c.table)
      (offers : t.Offers c key before base after) (linked : base.LinkedTo c.key key g)
      (relationship : r.id = c.newRelationship ∧ r.source = c.key ∧ r.dependent = ⟨c.table, g.id⟩)
      (result : q = { p with
        tables := earlier ++ { t with fields := before ++ g :: after, updatedAt := now } :: later
        relationships := p.relationships ++ [r]
        updatedAt := now }) : p.Connected c key now q r

namespace Project

variable {p : Project}

def connectedTable (t : Table) (c : Connection) (key : Field) (now : Timestamp)
    (before : List Field) (base : Field) (after : List Field) : Table :=
  { t with
    fields := before ++ (base.adopt key).attach (.ofTarget c.key) .linked :: after
    updatedAt := now }

/-- The project after the connection, the time of its last change aside. -/
def connected (p : Project) (t : Table) (c : Connection) (key : Field) (now : Timestamp)
    (before : List Field) (base : Field) (after : List Field) : Project :=
  { p.updateTable c.table fun _ => connectedTable t c key now before base after with
    relationships := p.relationships ++
      [.between c.newRelationship c.key ⟨c.table, base.id⟩ now] }

theorem connect_eq (found : p.field? c.key = some key) (located : p.table? c.table = some t)
    (apart : c.key.table ≠ c.table) (new : p.relationship? c.newRelationship = none)
    (early : ∀ f ∈ before, f.id ≠ base.id)
    (offered : connectable t c key =
      (base.id, { t with fields := before ++ base.adopt key :: after })) :
    p.connect c now =
      .ok (.between c.newRelationship c.key ⟨c.table, base.id⟩ now,
        p.connected t c key now before base after) := by
  refine connect_eq_ok_iff.mpr ⟨t, key, located, found, apart, ?_⟩
  rw [offered]
  let u : Table := { t with fields := before ++ base.adopt key :: after }
  have look (l : Location) : (p.updateTable c.table fun _ => u).field? l =
      if l.table = c.table then u.field? l.field else p.field? l := field?_replaceTable located rfl
  refine link_eq_ok_iff.mpr ⟨new, ?_, ?_, fun same => apart (congrArg Location.table same), rfl, ?_⟩
  · change ((p.updateTable c.table fun _ => u).field? c.key).isSome
    rw [look, if_neg apart, found, Option.isSome_some]
  · change ((p.updateTable c.table fun _ => u).field? ⟨c.table, base.id⟩).isSome
    rw [look, if_pos rfl, Table.field?, List.find?_isSome]
    exact ⟨base.adopt key, by simp [u], beq_self_eq_true base.id⟩
  · have attached : updateFirst (·.id == base.id) (·.attach (.ofTarget c.key) .linked) u.fields =
        before ++ (base.adopt key).attach (.ofTarget c.key) .linked :: after :=
      updateFirst_append_cons (by simpa using early) (by simp [Field.adopt]) _ _
    have named : u.id = c.table := table?_id (t := t) located
    change _ = ({ (p.updateTable c.table fun _ => u).updateTable c.table fun v => { v with
      fields := updateFirst (·.id == base.id) (·.attach (.ofTarget c.key) .linked) v.fields
      updatedAt := now } with
        relationships := _ } : Project)
    rw [updateTable_updateTable named, attached]
    rfl

theorem mem_connectedTable (offers : t.Offers c key before base after)
    (member : f ∈ (connectedTable t c key now before base after).fields) :
    f ∈ t.fields ∨ f = (base.adopt key).attach (.ofTarget c.key) .linked := by
  rcases List.mem_append.mp member with early | rest
  · exact .inl (offers.mem (.inl early))
  · rcases List.mem_cons.mp rest with same | late
    · exact .inr same
    · exact .inl (offers.mem (.inr late))

theorem connected_consistent (consistent : p.Consistent) (found : p.field? c.key = some key)
    (located : p.table? c.table = some t) (new : p.relationship? c.newRelationship = none)
    (fresh : t.field? c.newField = none) (offers : t.Offers c key before base after)
    (now : Timestamp) : (p.connected t c key now before base after).Consistent := by
  have keyed := consistent.toKeyed
  have member := List.mem_of_find?_eq_some located
  have replaced : (p.updateTable c.table fun _ =>
      connectedTable t c key now before base after).Consistent :=
    consistent.replaceTable located rfl (offers.nodup rfl (keyed.fields t member) fresh)
      (offers.keeps rfl) fun g present => (mem_connectedTable offers present).imp_right <| by
        rintro rfl r same
        obtain rfl := Option.some.inj same
        exact ⟨rfl, .of_field? found⟩
  have dependent : (p.updateTable c.table fun _ =>
      connectedTable t c key now before base after).Has ⟨c.table, base.id⟩ :=
    ⟨_, mem_replaceTable located rfl, table?_id (t := t) located,
      (base.adopt key).attach (.ofTarget c.key) .linked, by simp [connectedTable], rfl⟩
  refine replaced.addRelationship new ⟨?_, ?_, ?_⟩
  · rw [Relationship.between_source]
    exact .replaceTable keyed located rfl (offers.keeps rfl) (.of_field? found)
  · rw [Relationship.between_fallback]
    exact dependent
  · rw [Relationship.between_dependent]
    exact dependent

theorem connected_recorded (recorded : ∀ u ∈ p.tables, u.Recorded)
    (located : p.table? c.table = some t) (offers : t.Offers c key before base after) :
    ∀ u ∈ (p.connected t c key now before base after).tables, u.Recorded := by
  intro u member
  rcases mem_updateFirst member with old | ⟨_, _, _, rfl⟩
  · exact recorded u old
  · intro f present
    rcases mem_connectedTable offers present with kept | rfl
    · exact recorded t (List.mem_of_find?_eq_some located) f kept
    · exact fun _ => rfl

theorem connected_connected (located : p.table? c.table = some t)
    (offers : t.Offers c key before base after) :
    p.Connected c key now { p.connected t c key now before base after with updatedAt := now }
      (.between c.newRelationship c.key ⟨c.table, base.id⟩ now) := by
  obtain ⟨earlier, later, split, replaced⟩ := updateFirst_eq_append located
    fun _ => connectedTable t c key now before base after
  refine .intro split (table?_id located) offers (base.adopt_linkedTo c.key key)
    ⟨rfl, rfl, Relationship.between_dependent _ _ _ _⟩ ?_
  rw [connected, updateTable, replaced]
  rfl

end Project

namespace Session
open Project

variable {s next : Session} {outcome : Outcome}

theorem run_connect_eq (sound : s.Sound) (found : s.project.field? c.key = some key)
    (located : s.project.table? c.table = some t) (apart : c.key.table ≠ c.table)
    (new : s.project.relationship? c.newRelationship = none) (fresh : t.field? c.newField = none)
    (now : Timestamp) :
    ∃ before base after, t.Offers c key before base after ∧
      s.run now (.connect c) =
        .ok (.relationship (.between c.newRelationship c.key ⟨c.table, base.id⟩ now),
          { s with project :=
            { s.project.connected t c key now before base after with updatedAt := now } }) := by
  obtain ⟨before, base, after, offers, early, offered⟩ := connectable_offers
    (sound.consistent.fields t (List.mem_of_find?_eq_some located)) fresh key
  refine ⟨before, base, after, offers, apply_eq_ok_iff.mpr ⟨_, _,
    connect_eq found located apart new early offered, commit_recorded ?_ ?_ now, rfl⟩⟩
  · exact connected_consistent sound.consistent found located new fresh offers now
  · intro explicit
    exact connected_recorded (fun u => sound.recorded explicit) located offers

/-- In every session a key can be connected to a table exactly if both exist and the table is not that
of the key. -/
theorem run_connect (reachable : Reachable s) (c : Connection) (now : Timestamp)
    (new : s.project.relationship? c.newRelationship = none)
    (fresh : ∀ t, s.project.table? c.table = some t → t.field? c.newField = none) :
    ((∃ outcome next, s.run now (.connect c) = .ok (outcome, next)) ↔
        (s.project.field? c.key).isSome ∧ (s.project.table? c.table).isSome ∧
          c.key.table ≠ c.table) ∧
      ∀ outcome next, s.run now (.connect c) = .ok (outcome, next) →
        next.policy = s.policy ∧
        (∃ key r, s.project.field? c.key = some key ∧ outcome = .relationship r ∧
          s.project.Connected c key now next.project r) ∧
        ∀ t u, s.project.table? c.table = some t → next.project.table? c.table = some u →
          t.NamesDiffer → u.NamesDiffer := by
  have needs {outcome : Outcome} {next : Session}
      (done : s.run now (.connect c) = .ok (outcome, next)) :
      ∃ t key, s.project.table? c.table = some t ∧ s.project.field? c.key = some key ∧
        c.key.table ≠ c.table := by
    obtain ⟨_, _, connected, _⟩ := apply_eq_ok_iff.mp done
    obtain ⟨t, key, located, found, apart, _⟩ := connect_eq_ok_iff.mp connected
    exact ⟨t, key, located, found, apart⟩
  refine ⟨⟨?_, ?_⟩, fun outcome next done => ?_⟩
  · rintro ⟨outcome, next, done⟩
    obtain ⟨t, key, located, found, apart⟩ := needs done
    exact ⟨by simp [found], by simp [located], apart⟩
  · rintro ⟨keyThere, tableThere, apart⟩
    obtain ⟨key, found⟩ := Option.isSome_iff_exists.mp keyThere
    obtain ⟨t, located⟩ := Option.isSome_iff_exists.mp tableThere
    obtain ⟨_, _, _, _, done⟩ :=
      run_connect_eq reachable.sound found located apart new (fresh t located) now
    exact ⟨_, _, done⟩
  · obtain ⟨t, key, located, found, apart⟩ := needs done
    obtain ⟨before, base, after, offers, equal⟩ :=
      run_connect_eq reachable.sound found located apart new (fresh t located) now
    obtain ⟨rfl, rfl⟩ := Prod.mk.inj (Except.ok.inj (equal.symm.trans done))
    refine ⟨rfl, ⟨key, _, found, rfl, connected_connected located offers⟩,
      fun v u there held differ => ?_⟩
    obtain rfl := Option.some.inj (located.symm.trans there)
    have written : (s.project.updateTable c.table fun _ =>
        connectedTable t c key now before base after).table? c.table =
          some (connectedTable t c key now before base after) :=
      find?_updateFirst_of_some located (beq_iff_eq.mpr (table?_id (t := t) located))
    obtain rfl := Option.some.inj (written.symm.trans held)
    -- The field that takes the key bears its name already, or no other field does.
    exact offers.namesDiffer rfl differ

/-- Stores take the key of regions into the field that bears its name. -/
theorem plainStores_connected :
    let c : Connection := ⟨⟨"R", "K"⟩, "S", "M", "RS"⟩
    Reachable plainStores ∧ plainStores.project.relationship? c.newRelationship = none ∧
      (∀ t, plainStores.project.table? c.table = some t → t.field? c.newField = none) ∧
      ∃ key next r, plainStores.run noon (.connect c) = .ok (.relationship r, next) ∧
        plainStores.project.field? c.key = some key ∧
        plainStores.project.Connected c key noon next.project r := by
  intro c
  have fresh (t : Table) (located : plainStores.project.table? c.table = some t) :
      t.field? c.newField = none := by
    have known : plainStores.project.table? c.table = some _ := rfl
    obtain rfl := Option.some.inj (known.symm.trans located)
    rfl
  obtain ⟨possible, effect⟩ := run_connect plainStores_reachable c noon rfl fresh
  obtain ⟨outcome, next, done⟩ := possible.mpr ⟨rfl, rfl, by decide⟩
  obtain ⟨_, ⟨key, r, found, rfl, connected⟩, _⟩ := effect outcome next done
  exact ⟨plainStores_reachable, rfl, fresh, key, next, r, done, found, connected⟩

end Session
end LakeSchema
