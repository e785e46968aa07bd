import LakeSchema.Check.Consistency
import LakeSchema.Proofs.Schema.Lookup

/-!
# What the consistency check accepts

`Consistent` states consistency by membership, and `inconsistencies_eq_nil_iff` shows that the list
of violations is empty exactly then. `Consistent.of_field?` reads it off look-ups instead.
-/

namespace LakeSchema

theorem withEarlierFrom_eq_nil_iff {α β κ : Type} {judge : List α → α → List β} {key : α → κ}
    {good : α → Prop}
    (judged : ∀ earlier x, judge earlier x = [] ↔ (∀ y ∈ earlier, key y ≠ key x) ∧ good x)
    (earlier items : List α) :
    withEarlierFrom judge earlier items = [] ↔
      (∀ x ∈ items, ∀ y ∈ earlier, key y ≠ key x) ∧ (items.map key).Nodup ∧ ∀ x ∈ items, good x := by
  induction items generalizing earlier with
  | nil => simp [withEarlierFrom]
  | cons x rest ih =>
    rw [withEarlierFrom, List.append_eq_nil_iff, judged, ih, List.map_cons, List.nodup_cons]
    simp only [List.mem_cons, forall_eq_or_imp, List.mem_map, not_exists, not_and]
    constructor
    · rintro ⟨⟨apart, fine⟩, others, distinct, rest⟩
      exact ⟨⟨apart, fun y member => (others y member).2⟩,
        ⟨fun y member same => (others y member).1 same.symm, distinct⟩, fine, rest⟩
    · rintro ⟨⟨apart, others⟩, ⟨fresh, distinct⟩, fine, rest⟩
      exact ⟨⟨apart, fine⟩, fun y member => ⟨fun same => fresh y member same.symm, others y member⟩,
        distinct, rest⟩

/-- A check for repeated keys finds nothing exactly when keys are distinct and each item is good. -/
theorem withEarlier_eq_nil_iff {α β κ : Type} {judge : List α → α → List β} {key : α → κ}
    {good : α → Prop}
    (judged : ∀ earlier x, judge earlier x = [] ↔ (∀ y ∈ earlier, key y ≠ key x) ∧ good x)
    (items : List α) :
    withEarlier judge items = [] ↔ (items.map key).Nodup ∧ ∀ x ∈ items, good x := by
  rw [withEarlier, withEarlierFrom_eq_nil_iff judged]
  simp

/-- The checks judge each item with those in front of it. -/
theorem mem_withEarlier_iff {α β : Type} {judge : List α → α → List β} {items : List α} {b : β} :
    b ∈ withEarlier judge items ↔
      ∃ before x after, items = before ++ x :: after ∧ b ∈ judge before.reverse x := by
  have found : ∀ (items earlier : List α), b ∈ withEarlierFrom judge earlier items ↔
      ∃ before x after, items = before ++ x :: after ∧ b ∈ judge (before.reverse ++ earlier) x := by
    intro items
    induction items with
    | nil => simp [withEarlierFrom]
    | cons x rest ih =>
      intro earlier
      rw [withEarlierFrom, List.mem_append, ih]
      constructor
      · rintro (here | ⟨before, y, after, rfl, judged⟩)
        · exact ⟨[], x, rest, rfl, here⟩
        · exact ⟨x :: before, y, after, rfl, by simpa using judged⟩
      · rintro ⟨before, y, after, split, judged⟩
        cases before with
        | nil =>
          obtain ⟨rfl, rfl⟩ := List.cons.inj split
          exact .inl judged
        | cons z before =>
          obtain ⟨rfl, rfl⟩ := List.cons.inj split
          exact .inr ⟨before, y, after, rfl, by simpa using judged⟩
  rw [withEarlier, found]
  simp only [List.append_nil]

theorem mem_withEarlier {α β : Type} {judge : List α → α → List β} {items : List α} {b : β}
    (member : b ∈ withEarlier judge items) : ∃ earlier, ∃ x ∈ items, b ∈ judge earlier x := by
  obtain ⟨before, x, after, rfl, judged⟩ := mem_withEarlier_iff.mp member
  exact ⟨_, x, by simp, judged⟩

namespace Project

variable {p : Project}

/-- What every edit of a project leaves true. -/
structure Consistent (p : Project) : Prop extends p.Keyed where
  references : ∀ t ∈ p.tables, ∀ f ∈ t.fields, ∀ r, f.reference = some r →
    f.isForeignKey = true ∧ p.Has r.target
  relationships : (p.relationships.map (·.id)).Nodup
  endpoints : ∀ r ∈ p.relationships, p.Has r.source ∧ p.Has r.fallback ∧ p.Has r.dependent
  links : ∀ m ∈ p.metricRelationships,
    (∃ t ∈ p.tables, t.id = m.sourceTable) ∧ ∃ v ∈ p.metricViews, v.id = m.metricView

/-! ### The parts of the check -/

theorem repeatedField_eq_nil_iff (t : Table) (earlier : List Field) (f : Field) :
    repeatedField t earlier f = [] ↔ (∀ other ∈ earlier, other.id ≠ f.id) ∧ True := by
  simp [repeatedField]

theorem repeatedIds_eq_nil_iff (earlier : List Table) (t : Table) :
    repeatedIds earlier t = [] ↔
      (∀ other ∈ earlier, other.id ≠ t.id) ∧ (t.fields.map (·.id)).Nodup := by
  rw [repeatedIds, List.append_eq_nil_iff, withEarlier_eq_nil_iff (repeatedField_eq_nil_iff t)]
  simp

theorem keyed_iff : withEarlier repeatedIds p.tables = [] ↔ p.Keyed := by
  rw [withEarlier_eq_nil_iff repeatedIds_eq_nil_iff]
  exact ⟨fun ⟨tables, fields⟩ => ⟨tables, fields⟩, fun keyed => ⟨keyed.tables, keyed.fields⟩⟩

/-- The check finds the last table of an identifier, which is the only one once the project is
keyed. -/
theorem holds_iff (keyed : p.Keyed) (l : Location) : p.holds l = true ↔ p.Has l := by
  have distinct : (p.tables.reverse.map (·.id)).Nodup := by
    rw [List.map_reverse]
    exact List.nodup_reverse.mpr keyed.tables
  have last : ∀ t, p.tables.reverse.find? (·.id == l.table) = some t ↔
      t ∈ p.tables ∧ t.id = l.table := by
    intro t
    rw [find?_eq_some_iff_mem distinct, List.mem_reverse]
  rw [holds]
  split
  · rename_i t found
    obtain ⟨member, same⟩ := (last t).mp found
    simp only [List.any_eq_true, beq_iff_eq]
    constructor
    · rintro ⟨f, present, named⟩
      exact ⟨t, member, same, f, present, named⟩
    · rintro ⟨u, present, located, f, inside, named⟩
      have equal : u = t := List.inj_on_of_nodup_map keyed.tables present member
        (located.trans same.symm)
      exact ⟨f, equal ▸ inside, named⟩
  · rename_i absent
    refine ⟨fun impossible => by simp at impossible, ?_⟩
    rintro ⟨t, member, same, _⟩
    have found := (last t).mpr ⟨member, same⟩
    rw [absent] at found
    contradiction

theorem referenceProblems_eq_nil_iff (keyed : p.Keyed) (t : Table) (f : Field) :
    p.referenceProblems t f = [] ↔
      ∀ r, f.reference = some r → f.isForeignKey = true ∧ p.Has r.target := by
  unfold referenceProblems
  cases f.reference with
  | none => simp
  | some r => simp [holds_iff keyed]

/-- The dependent field is one of the ends that the check looks for, under one name or another. -/
theorem relationshipProblems_eq_nil_iff (keyed : p.Keyed) (earlier : List Relationship)
    (r : Relationship) :
    p.relationshipProblems earlier r = [] ↔
      (∀ other ∈ earlier, other.id ≠ r.id) ∧
        (p.Has r.source ∧ p.Has r.fallback ∧ p.Has r.dependent) := by
  have problem : ∀ ending, p.endpointProblem r ending = [] ↔ p.Has ending.2 := by
    intro ending
    simp [endpointProblem, holds_iff keyed]
  have ends : (∀ ending ∈ endpoints r, p.Has ending.2) ↔
      p.Has r.source ∧ p.Has r.fallback ∧ p.Has r.dependent := by
    unfold endpoints
    split
    · simp
    · rename_i absent
      have fallback : r.dependent = r.fallback := by
        unfold Relationship.dependent
        split <;> simp_all
      simp [fallback]
  rw [relationshipProblems, List.append_eq_nil_iff, List.flatMap_eq_nil_iff]
  simp only [problem, ends]
  simp

theorem metricProblems_eq_nil_iff (m : MetricRelationship) :
    p.metricProblems m = [] ↔
      (∃ t ∈ p.tables, t.id = m.sourceTable) ∧ ∃ v ∈ p.metricViews, v.id = m.metricView := by
  simp [metricProblems]

/-- The check finds nothing exactly in consistent projects. -/
theorem inconsistencies_eq_nil_iff : p.inconsistencies = [] ↔ p.Consistent := by
  simp only [inconsistencies, List.append_eq_nil_iff, keyed_iff, List.flatMap_eq_nil_iff,
    metricProblems_eq_nil_iff]
  constructor
  · rintro ⟨⟨⟨keyed, references⟩, relationships⟩, links⟩
    rw [withEarlier_eq_nil_iff (relationshipProblems_eq_nil_iff keyed)] at relationships
    exact
      { keyed with
        references := fun t member f present =>
          (referenceProblems_eq_nil_iff keyed t f).mp (references t member f present)
        relationships := relationships.1
        endpoints := relationships.2
        links }
  · intro consistent
    have keyed := consistent.toKeyed
    refine ⟨⟨⟨keyed, fun t member f present => ?_⟩, ?_⟩, consistent.links⟩
    · exact (referenceProblems_eq_nil_iff keyed t f).mpr (consistent.references t member f present)
    · rw [withEarlier_eq_nil_iff (relationshipProblems_eq_nil_iff keyed)]
      exact ⟨consistent.relationships, consistent.endpoints⟩

def newYear : Timestamp :=
  .ofClock ⟨2024, 1, 1, by decide, by decide, by decide⟩ 0 0 0 0

/-- Sales refer to stores by a key that refers to regions. -/
def keyChain : Project :=
  { Project.empty "P" "shop" "main" "sales" newYear with
    tables :=
      [ { Table.plain "R" "regions" newYear with
          fields := [(Field.plain "K" "id" .int).asPrimaryKey] },
        { Table.plain "S" "stores" newYear with
          fields := [(Field.plain "L" "id" .int).asPrimaryKey.referring ⟨"R", "K"⟩] },
        { Table.plain "T" "sales" newYear with
          fields := [(Field.plain "M" "id" .int).referring ⟨"S", "L"⟩] } ]
    relationships :=
      [.between "RS" ⟨"R", "K"⟩ ⟨"S", "L"⟩ newYear, .between "ST" ⟨"S", "L"⟩ ⟨"T", "M"⟩ newYear] }

example : keyChain.inconsistencies = [] := by decide

/-! ### Consistency by look-ups -/

theorem Consistent.reference {l : Location} {f : Field} {r : Reference} (consistent : p.Consistent)
    (found : p.field? l = some f) (refers : f.reference = some r) :
    f.isForeignKey = true ∧ (p.field? r.target).isSome := by
  obtain ⟨t, member, _, present, _⟩ := (field?_eq_some_iff consistent.toKeyed).mp found
  rw [← has_iff_field? consistent.toKeyed]
  exact consistent.references t member f present r refers

theorem Consistent.endpoint {r : Relationship} (consistent : p.Consistent)
    (member : r ∈ p.relationships) :
    (p.field? r.source).isSome ∧ (p.field? r.fallback).isSome ∧ (p.field? r.dependent).isSome := by
  simp only [← has_iff_field? consistent.toKeyed]
  exact consistent.endpoints r member

theorem Consistent.of_field? (keyed : p.Keyed)
    (references : ∀ l f r, p.field? l = some f → f.reference = some r →
      f.isForeignKey = true ∧ (p.field? r.target).isSome)
    (relationships : (p.relationships.map (·.id)).Nodup)
    (endpoints : ∀ r ∈ p.relationships,
      (p.field? r.source).isSome ∧ (p.field? r.fallback).isSome ∧ (p.field? r.dependent).isSome)
    (links : ∀ m ∈ p.metricRelationships,
      (∃ t ∈ p.tables, t.id = m.sourceTable) ∧ ∃ v ∈ p.metricViews, v.id = m.metricView) :
    p.Consistent where
  toKeyed := keyed
  references t member f present r refers := by
    rw [has_iff_field? keyed]
    exact references _ f r (field?_of_mem keyed member present) refers
  relationships := relationships
  endpoints r member := by
    simp only [has_iff_field? keyed]
    exact endpoints r member
  links := links

/-- A change of fields that keeps what they refer to keeps a project consistent. -/
theorem Consistent.fieldwise {q : Project} {g : Table → Table} {h : Location → Field → Field}
    (consistent : p.Consistent) (fieldwise : Fieldwise g h) (tables : q.tables = p.tables.map g)
    (keeps : ∀ l f, p.field? l = some f →
      (h l f).reference = f.reference ∧ (h l f).isForeignKey = f.isForeignKey)
    (relationships : q.relationships = p.relationships)
    (metricViews : q.metricViews = p.metricViews)
    (metricRelationships : q.metricRelationships = p.metricRelationships) : q.Consistent := by
  have look := fieldwise.field? tables
  refine .of_field? (fieldwise.keyed tables consistent.toKeyed) ?_
    (relationships ▸ consistent.relationships) (fun r member => ?_) fun m member => ?_
  · intro l f r found refers
    rw [look, Option.map_eq_some_iff] at found
    obtain ⟨before, found, rfl⟩ := found
    obtain ⟨reference, flag⟩ := keeps l before found
    rw [reference] at refers
    rw [flag, look, Option.isSome_map]
    exact consistent.reference found refers
  · simp only [look, Option.isSome_map]
    exact consistent.endpoint (relationships ▸ member)
  · obtain ⟨⟨t, present, same⟩, view⟩ := consistent.links m (metricRelationships ▸ member)
    rw [tables, metricViews]
    exact ⟨⟨g t, List.mem_map_of_mem present, (fieldwise.id t).trans same⟩, view⟩

/-- A table may be replaced if no field is lost and the fields that are new refer to what is there. -/
theorem Consistent.replaceTable {id : String} {t u : Table} (consistent : p.Consistent)
    (located : p.table? id = some t) (named : u.id = t.id) (distinct : (u.fields.map (·.id)).Nodup)
    (keeps : ∀ f ∈ t.fields, ∃ g ∈ u.fields, g.id = f.id)
    (references : ∀ g ∈ u.fields, g ∈ t.fields ∨
      ∀ r, g.reference = some r → g.isForeignKey = true ∧ p.Has r.target) :
    (p.updateTable id fun _ => u).Consistent := by
  have has {l : Location} : p.Has l → (p.updateTable id fun _ => u).Has l :=
    Has.replaceTable consistent.toKeyed located named keeps
  have old := consistent.references
  refine ⟨replaceTable_keyed consistent.toKeyed located named distinct, ?_, consistent.relationships,
    fun r member => ?_, fun m member => ?_⟩
  · intro v member g present r refers
    have known : g.isForeignKey = true ∧ p.Has r.target := by
      rcases mem_updateFirst member with there | ⟨_, _, _, rfl⟩
      · exact old v there g present r refers
      · rcases references g present with kept | added
        · exact old t (List.mem_of_find?_eq_some located) g kept r refers
        · exact added r refers
    exact ⟨known.1, has known.2⟩
  · obtain ⟨source, fallback, dependent⟩ := consistent.endpoints r member
    exact ⟨has source, has fallback, has dependent⟩
  · obtain ⟨⟨v, present, same⟩, view⟩ := consistent.links m member
    have listed : v.id ∈ (p.updateTable id fun _ => u).tables.map (·.id) :=
      replaceTable_ids located named ▸ List.mem_map_of_mem present
    obtain ⟨w, inside, equal⟩ := List.mem_map.mp listed
    exact ⟨⟨w, inside, equal.trans same⟩, view⟩

/-- A relationship with a new identifier may be added between fields that exist. -/
theorem Consistent.addRelationship {r : Relationship} (consistent : p.Consistent)
    (new : p.relationship? r.id = none)
    (ends : p.Has r.source ∧ p.Has r.fallback ∧ p.Has r.dependent) :
    ({ p with relationships := p.relationships ++ [r] } : Project).Consistent where
  toKeyed := ⟨consistent.tables, consistent.fields⟩
  references := consistent.references
  relationships := by
    have apart : r.id ∉ p.relationships.map (·.id) := by
      intro member
      obtain ⟨other, present, same⟩ := List.mem_map.mp member
      have absent := List.find?_eq_none.mp new other present
      simp [same] at absent
    rw [List.map_append, List.nodup_append]
    refine ⟨consistent.relationships, List.nodup_singleton r.id, ?_⟩
    rintro id member _ single rfl
    obtain rfl : id = r.id := List.mem_singleton.mp single
    exact apart member
  endpoints other member := by
    rcases List.mem_append.mp member with old | added
    · exact consistent.endpoints other old
    · obtain rfl := List.mem_singleton.mp added
      exact ends
  links := consistent.links

end Project
end LakeSchema
