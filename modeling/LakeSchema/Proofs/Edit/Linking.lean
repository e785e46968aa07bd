import LakeSchema.Edit.Linking
import LakeSchema.Proofs.ForeignKey.Propagation

/-!
# What linking does

A relationship is added exactly if its identifier is new and its ends are different fields that exist
(`link_eq_ok_iff`); its dependent field is then attached to its source, and nothing else changes.
-/

namespace LakeSchema.Project

variable {p q : Project} {spec : RelationshipSpec} {r : Relationship} {now : Timestamp} {id : String}
  {source dependent : Location}

theorem checkEndpoints_eq_ok_iff :
    p.checkEndpoints id source dependent = .ok () ↔
      (p.field? source).isSome ∧ (p.field? dependent).isSome := by
  have ends : (∀ x ∈ [("source", source), ("foreign key", dependent)], (p.field? x.2).isSome) ↔
      (p.field? source).isSome ∧ (p.field? dependent).isSome := by simp
  rw [checkEndpoints, forM_eq_ok_iff, ← ends]
  -- Both ends are looked up alike; the messages differ.
  refine forall₂_congr fun x _ => ?_
  obtain ⟨label, l⟩ := x
  simp only [field?]
  cases p.table? l.table with
  | none => simp
  | some t => simp [Option.isSome_iff_ne_none]

/-- The project with a new relationship and its dependent field as a foreign key. -/
def linked (p : Project) (spec : RelationshipSpec) (now : Timestamp) : Project :=
  { p.updateTable spec.dependent.table fun t =>
      { t with
        fields := updateFirst (·.id == spec.dependent.field)
          (fun f => f.attach spec.reference (p.newOrigin spec f)) t.fields
        updatedAt := now } with
    relationships := p.relationships ++ [spec.relationship now] }

theorem link_eq_ok_iff :
    p.link spec now = .ok (r, q) ↔
      p.relationship? spec.id = none ∧ (p.field? spec.source).isSome ∧
        (p.field? spec.dependent).isSome ∧ spec.source ≠ spec.dependent ∧
        r = spec.relationship now ∧ q = p.linked spec now := by
  simp only [link, guard_eq_ok_iff, bind_eq_ok_iff]
  constructor
  · rintro ⟨new, ⟨⟩, ends, apart, done⟩
    obtain ⟨rfl, rfl⟩ := Prod.mk.inj (Except.ok.inj done)
    obtain ⟨source, dependent⟩ := checkEndpoints_eq_ok_iff.mp ends
    exact ⟨by simpa using new, source, dependent, apart, rfl, rfl⟩
  · rintro ⟨new, source, dependent, apart, rfl, rfl⟩
    exact ⟨by simp [new], (), checkEndpoints_eq_ok_iff.mpr ⟨source, dependent⟩, apart, rfl⟩

theorem requireRelationship_eq_ok_iff :
    p.requireRelationship id = .ok r ↔ p.relationship? id = some r := by
  unfold requireRelationship
  split <;> simp [*]

/-- The changed relationship takes the place of the old one, and the constraint of its dependent field
changes with it if that refers to its source. -/
theorem updateRelationship_effect {patch : RelationshipPatch}
    (done : p.updateRelationship id patch now = .ok (r, q)) :
    ∃ s, p.relationship? id = some s ∧ r = { patch.apply s with updatedAt := now } ∧
      let written := { p with relationships := updateFirst (·.id == id) (fun _ => r) p.relationships }
      q = written ∨ q = written.updateTable r.dependent.table fun t =>
        { t with
          fields := updateFirst (·.id == r.dependent.field)
            (fun f => { f with reference := f.reference.map patch.applyToReference }) t.fields
          updatedAt := now } := by
  simp only [updateRelationship, bind_eq_ok_iff, requireRelationship_eq_ok_iff] at done
  obtain ⟨s, found, done⟩ := done
  split at done
  · obtain ⟨rfl, rfl⟩ := Prod.mk.inj (Except.ok.inj done)
    exact ⟨s, found, rfl, .inr rfl⟩
  · obtain ⟨rfl, rfl⟩ := Prod.mk.inj (Except.ok.inj done)
    exact ⟨s, found, rfl, .inl rfl⟩

theorem removeLine_effect (done : p.removeLine id = .ok (r, q)) :
    q = { p with relationships := p.relationships.eraseP (·.id == id) } := by
  obtain ⟨_, _, done⟩ := bind_eq_ok_iff.mp done
  exact (Prod.mk.inj (Except.ok.inj done)).2.symm

/-! ### Connections -/

section Connectable

variable (t : Table) (connection : Connection) (key : Field)

theorem connectable_id : (connectable t connection key).2.id = t.id := by
  unfold connectable
  split <;> rfl

theorem connectable_name : (connectable t connection key).2.name = t.name := by
  unfold connectable
  split <;> rfl

/-- A field that a connection makes is called after the key. -/
theorem connectable_fieldNames :
    ∀ f ∈ (connectable t connection key).2.fields,
      f.name ∈ t.fields.map (·.name) ∨ f.name = key.name := by
  intro f present
  unfold connectable at present
  split at present
  · left
    rename_i f _
    have same : (updateFirst (·.id == f.id) (·.adopt key) t.fields).map (·.name) =
        t.fields.map (·.name) := updateFirst_map_key fun _ => rfl
    exact same ▸ List.mem_map_of_mem present
  · rcases List.mem_append.mp present with old | new
    · exact .inl (List.mem_map_of_mem old)
    · obtain rfl := List.mem_singleton.mp new
      exact .inr rfl

end Connectable

/-- The relationship that a connection adds once it has a field. -/
def connectionSpec (connection : Connection) (field : String) : RelationshipSpec :=
  { id := connection.newRelationship
    source := connection.key
    dependent := ⟨connection.table, field⟩
    cardinality := .oneToMany
    constraintName := none
    onDelete := .noAction
    onUpdate := .noAction
    origin := some .linked }

theorem connect_eq_ok_iff {connection : Connection} :
    p.connect connection now = .ok (r, q) ↔
      ∃ t key, p.table? connection.table = some t ∧ p.field? connection.key = some key ∧
        connection.key.table ≠ connection.table ∧
        (p.updateTable connection.table fun _ => (connectable t connection key).2).link
          (connectionSpec connection (connectable t connection key).1) now = .ok (r, q) := by
  simp only [connect, guard_eq_ok_iff, bind_eq_ok_iff, requireTable_eq_ok_iff,
    requireField_eq_ok_iff]
  constructor
  · rintro ⟨u, keyTable, key, present, apart, t, located, done⟩
    exact ⟨t, key, located, by rw [field?, keyTable]; exact present, apart, done⟩
  · rintro ⟨t, key, located, found, apart, done⟩
    obtain ⟨u, keyTable, present⟩ := Option.bind_eq_some_iff.mp found
    exact ⟨u, keyTable, key, present, apart, t, located, done⟩

/-- A connection adds one field at most, which is then linked. -/
theorem connect_steps {connection : Connection} (done : p.connect connection now = .ok (r, q)) :
    ∃ t key spec, p.table? connection.table = some t ∧ p.field? connection.key = some key ∧
      spec.dependent = ⟨connection.table, (connectable t connection key).1⟩ ∧
      (p.updateTable connection.table fun _ => (connectable t connection key).2).link spec now =
        .ok (r, q) := by
  obtain ⟨t, key, located, found, _, done⟩ := connect_eq_ok_iff.mp done
  exact ⟨t, key, _, located, found, rfl, done⟩

end LakeSchema.Project
