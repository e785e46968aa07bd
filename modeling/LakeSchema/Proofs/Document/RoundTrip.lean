import LakeSchema.Document.Load
import LakeSchema.Proofs.Check.Consistency
import LakeSchema.Proofs.Document.Canonical

/-!
# Saved projects load unchanged

A consistent project that the canonical form holds is loaded from its document as it was saved:
normalising leaves the document alone, reading gives the project back, and there is no reference to
repair and no relationship to set aside.
-/

namespace LakeSchema

namespace Project

variable {p : Project}

theorem repairTable_of_consistent (consistent : p.Consistent) {t : Table} (member : t ∈ p.tables) :
    p.repairTable t = (t, []) := by
  have each : t.fields.map (p.repairField t.name) = t.fields.map fun f => (f, []) := by
    refine List.map_congr_left fun f inside => ?_
    unfold repairField
    split
    · rfl
    · rename_i r refers
      obtain ⟨flagged, target⟩ := consistent.references t member f inside r refers
      have same : { f with isForeignKey := true } = f := by rw [← flagged]
      rw [if_pos ((holds_iff consistent.toKeyed r.target).mpr target), same]
  simp only [repairTable, each, List.map_map, List.flatMap_map]
  simp [Function.comp_def]

theorem repairReferences_of_consistent (consistent : p.Consistent) :
    p.repairReferences = (p, []) := by
  have each : p.tables.map p.repairTable = p.tables.map fun t => (t, []) :=
    List.map_congr_left fun t member => repairTable_of_consistent consistent member
  simp only [repairReferences, each, List.map_map, List.flatMap_map]
  simp [Function.comp_def]

theorem anchors_of_consistent (consistent : p.Consistent) {r : Relationship}
    (member : r ∈ p.relationships) : p.anchors r = true := by
  obtain ⟨source, fallback, dependent⟩ := consistent.endpoints r member
  simp only [anchors, Bool.and_eq_true, holds_iff consistent.toKeyed]
  exact ⟨⟨source, fallback⟩, dependent⟩

theorem anchorsMetric_of_consistent (consistent : p.Consistent) {m : MetricRelationship}
    (member : m ∈ p.metricRelationships) : p.anchorsMetric m = true := by
  simpa [anchorsMetric] using consistent.links m member

end Project

/-- There is nothing to repair in a consistent project and nothing to set aside. -/
theorem Loaded.ofProject_of_consistent {p : Project} (consistent : p.Consistent)
    (warnings : List Warning) : Loaded.ofProject p warnings = ⟨p, [], [], warnings⟩ := by
  have relationships : p.relationships.filter p.anchors = p.relationships :=
    List.filter_eq_self.mpr fun r member => Project.anchors_of_consistent consistent member
  have orphans : (p.relationships.filter fun r => !p.anchors r) = [] := by
    simpa [List.filter_eq_nil_iff] using fun r => Project.anchors_of_consistent consistent (r := r)
  have links : p.metricRelationships.filter p.anchorsMetric = p.metricRelationships :=
    List.filter_eq_self.mpr fun m member => Project.anchorsMetric_of_consistent consistent member
  have metricOrphans : (p.metricRelationships.filter fun m => !p.anchorsMetric m) = [] := by
    simpa [List.filter_eq_nil_iff] using
      fun m => Project.anchorsMetric_of_consistent consistent (m := m)
  simp only [ofProject, Project.repairReferences_of_consistent consistent, relationships, orphans,
    links, metricOrphans, List.append_nil]

namespace Document

/-- Saving and loading gives the same project, with no warning and nothing set aside. -/
theorem load_saved {p : Project} (consistent : p.inconsistencies = []) (storable : p.Storable)
    (now : Timestamp) (supply : IdSupply) :
    load now p.toJson.sorted supply = .ok (⟨p, [], [], []⟩, supply) := by
  have read : (Project.decode (p.dated now).sorted).run supply = .ok (p, supply) :=
    Project.reads storable now supply
  have whole := Loaded.ofProject_of_consistent (Project.inconsistencies_eq_nil_iff.mp consistent) []
  simp only [load, normalise_toJson storable, read, bind, Except.bind, whole]
  rfl

/-- Orders of customers, with a metric view on them that is joined to the customers. -/
def webShop : Project :=
  { Project.empty "P" "web shop" "main" "shop" Project.newYear with
    canvasSettings := some (.object [("zoom", .number (.whole 2))])
    tables :=
      [ { Table.plain "C" "customers" Project.newYear with
          fields := [(Field.plain "K" "id" .bigint).asPrimaryKey,
            { Field.plain "N" "name" .varchar with typeParameters := some (.length 80) }] },
        { Table.plain "O" "orders" Project.newYear with
          tags := TagMap.ofList [("tier", "gold"), ("owner", "sales")]
          fields := [(Field.plain "F" "customer" .bigint).referring ⟨"C", "K"⟩,
            { Field.plain "X" "code" .string with
              typeParameters := some (.other [("collation", .string "utf8"),
                ("length", .number (.whole 10))]) }] } ]
    relationships := [.between "CO" ⟨"C", "K"⟩ ⟨"O", "F"⟩ Project.newYear]
    metricViews :=
      [ { MetricView.plain "V" "totals" "O" Project.newYear with
          measures := [.plain "A" "amount" "SUM(amount)"]
          joins := [⟨"J", "customer", some "C", none, none, ["customer"], .left, []⟩] } ]
    metricRelationships := [.between "OV" "O" "V" Project.newYear] }

theorem webShop_storable : webShop.Storable := by
  have plain : Project.newYear.Plain := ⟨by decide, by decide⟩
  have position : Position.initial.Finite := ⟨by decide, by decide⟩
  have size : Size.initial.Finite := ⟨by decide, by decide⟩
  refine ⟨?_, plain, plain, ?_, ?_, ?_, fun _ member => absurd member List.not_mem_nil, ?_⟩
  · intro settings given
    obtain rfl := Option.some.inj given
    exact ⟨nofun, by unfold Json.Canonical; decide⟩
  · intro t member
    rcases List.mem_pair.mp member with rfl | rfl
    · refine ⟨position, size, ?_, plain, plain⟩
      intro f inside parameters given
      rcases List.mem_pair.mp inside with rfl | rfl
      · contradiction
      · obtain rfl := Option.some.inj given
        trivial
    · refine ⟨position, size, ?_, plain, plain⟩
      intro f inside parameters given
      rcases List.mem_pair.mp inside with rfl | rfl
      · contradiction
      · obtain rfl := Option.some.inj given
        exact ⟨by unfold Json.Canonical; decide, by decide⟩
  · intro r member
    obtain rfl := List.mem_singleton.mp member
    exact ⟨nofun, plain, plain⟩
  · intro v member
    obtain rfl := List.mem_singleton.mp member
    exact ⟨position, size, plain, plain⟩
  · intro r member
    obtain rfl := List.mem_singleton.mp member
    exact ⟨nofun, nofun, plain⟩

/-- The document of the shop is loaded as the shop. -/
theorem load_webShop : webShop.inconsistencies = [] ∧ webShop.Storable ∧
    load Project.newYear webShop.toJson.sorted ⟨7⟩ = .ok (⟨webShop, [], [], []⟩, ⟨7⟩) :=
  ⟨by decide, webShop_storable, load_saved (by decide) webShop_storable Project.newYear ⟨7⟩⟩

end Document
end LakeSchema
