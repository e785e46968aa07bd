import LakeSchema.Proofs.Document.RoundTrip
import LakeSchema.Proofs.Json.Source
import LakeSchema.Proofs.Session.Invariant

/-!
# Loading repairs documents

The loader and the consistency check agree on which fields exist, and repairs keep all identifiers.
So a loaded project is inconsistent only where identifiers repeat (`Repaired.repetition`), and without
such repetitions a session opens over it. No relationship of the document is lost: each is kept or set
aside (`load_repairs`).
-/

namespace LakeSchema

namespace Project

variable {p q : Project}

theorem Fieldwise.holds {g : Table → Table} {h : Location → Field → Field}
    (fieldwise : Fieldwise g h) (changed : q.tables = p.tables.map g) (l : Location) :
    q.holds l = p.holds l := by
  have same : (fun t : Table => t.id == l.table) ∘ g = fun t => t.id == l.table := by
    funext t
    simp [fieldwise.id]
  have inside : ∀ t, (g t).fields.any (·.id == l.field) = t.fields.any (·.id == l.field) := by
    intro t
    have ids := congrArg (fun ids : List String => ids.any (· == l.field)) (fieldwise.map_fieldId t)
    simpa [List.any_map, Function.comp_def] using ids
  rw [Project.holds, Project.holds, changed, ← List.map_reverse, List.find?_map, same]
  cases p.tables.reverse.find? (·.id == l.table) with
  | none => rfl
  | some t => exact inside t

/-! ### What a repair achieves -/

/-- References and relationships lead to what exists. Identifiers may still repeat. -/
structure Repaired (p : Project) : Prop where
  references : ∀ t ∈ p.tables, ∀ f ∈ t.fields, ∀ r, f.reference = some r →
    f.isForeignKey = true ∧ p.holds r.target = true
  endpoints : ∀ r ∈ p.relationships, p.anchors r = true
  links : ∀ m ∈ p.metricRelationships, p.anchorsMetric m = true

theorem Repaired.endpointProblem (repaired : p.Repaired) {r : Relationship}
    (member : r ∈ p.relationships) {ending : String × Location} (listed : ending ∈ Project.endpoints r) :
    p.endpointProblem r ending = [] := by
  have anchored := repaired.endpoints r member
  simp only [anchors, Bool.and_eq_true] at anchored
  obtain ⟨⟨source, fallback⟩, dependent⟩ := anchored
  have there : p.holds ending.2 = true := by
    rcases List.mem_append.mp listed with always | given
    · rcases List.mem_pair.mp always with rfl | rfl
      · exact source
      · exact fallback
    · split at given
      · obtain rfl := List.mem_singleton.mp given
        exact dependent
      · exact absurd given List.not_mem_nil
  exact if_pos there

/-- All that the check finds in a repaired project are identifiers that occur twice. -/
theorem Repaired.repetition (repaired : p.Repaired) {e : SchemaError}
    (found : e ∈ p.inconsistencies) : ∃ entity problem, e = .duplicateEntity entity problem := by
  have repeats : ∀ {twice : Bool} {entity problem : String},
      e ∈ (if twice then [SchemaError.duplicateEntity entity problem] else []) →
        ∃ entity problem, e = .duplicateEntity entity problem := by
    intro twice entity problem reported
    split at reported
    · exact ⟨entity, problem, List.mem_singleton.mp reported⟩
    · exact absurd reported List.not_mem_nil
  simp only [inconsistencies, List.mem_append, or_assoc] at found
  rcases found with ids | reference | relationship | link
  · obtain ⟨earlier, t, _, reported⟩ := mem_withEarlier ids
    rcases List.mem_append.mp reported with table | field
    · exact repeats table
    · obtain ⟨fields, f, _, reported⟩ := mem_withEarlier field
      exact repeats reported
  · obtain ⟨t, member, inTable⟩ := List.mem_flatMap.mp reference
    obtain ⟨f, inside, reported⟩ := List.mem_flatMap.mp inTable
    have none : p.referenceProblems t f = [] := by
      unfold referenceProblems
      split
      · rfl
      · rename_i r refers
        obtain ⟨flagged, there⟩ := repaired.references t member f inside r refers
        rw [if_pos flagged, if_pos there, List.append_nil]
    rw [none] at reported
    exact absurd reported List.not_mem_nil
  · obtain ⟨earlier, r, member, reported⟩ := mem_withEarlier relationship
    rcases List.mem_append.mp reported with id | ends
    · exact repeats id
    · obtain ⟨ending, listed, missing⟩ := List.mem_flatMap.mp ends
      rw [repaired.endpointProblem member listed] at missing
      exact absurd missing List.not_mem_nil
  · obtain ⟨m, member, reported⟩ := List.mem_flatMap.mp link
    obtain ⟨table, view⟩ := Bool.and_eq_true_iff.mp (repaired.links m member)
    rw [metricProblems, if_pos table, if_pos view] at reported
    exact absurd reported List.not_mem_nil

theorem Repaired.consistent (repaired : p.Repaired) (keyed : p.Keyed)
    (relationships : (p.relationships.map (·.id)).Nodup) : p.Consistent where
  toKeyed := keyed
  references t member f inside r refers := by
    obtain ⟨flagged, there⟩ := repaired.references t member f inside r refers
    exact ⟨flagged, (holds_iff keyed r.target).mp there⟩
  relationships := relationships
  endpoints r member := by
    have anchored := repaired.endpoints r member
    simp only [anchors, Bool.and_eq_true, holds_iff keyed] at anchored
    exact ⟨anchored.1.1, anchored.1.2, anchored.2⟩
  links m member := by simpa [anchorsMetric] using repaired.links m member

/-! ### Repairing references -/

theorem repairField_id (table : String) (f : Field) : (p.repairField table f).1.id = f.id := by
  unfold repairField
  split
  · rfl
  · split <;> rfl

/-- The name of the table only shows in warnings. -/
theorem repairField_fst (table : String) (f : Field) :
    (p.repairField table f).1 = (p.repairField "" f).1 := by
  unfold repairField
  split
  · rfl
  · split <;> rfl

theorem reference_repairField {table : String} {f : Field} {r : Reference}
    (refers : (p.repairField table f).1.reference = some r) :
    (p.repairField table f).1.isForeignKey = true ∧ p.holds r.target = true := by
  unfold repairField at refers ⊢
  split at refers
  · rename_i none
    rw [none] at refers
    contradiction
  · rename_i reference given
    by_cases there : p.holds reference.target = true
    · rw [if_pos there] at refers ⊢
      have same : reference = r := Option.some.inj (given.symm.trans refers)
      exact ⟨rfl, same ▸ there⟩
    · rw [if_neg there] at refers
      contradiction

theorem repairTable_fieldwise (p : Project) :
    Fieldwise (fun t => (p.repairTable t).1) fun _ f => (p.repairField "" f).1 where
  id _ := rfl
  fields t := by
    show (t.fields.map (p.repairField t.name)).map Prod.fst = _
    rw [List.map_map]
    exact List.map_congr_left fun f _ => repairField_fst t.name f
  fieldId _ := repairField_id ""

theorem repairReferences_tables (p : Project) :
    p.repairReferences.1.tables = p.tables.map fun t => (p.repairTable t).1 := by
  simp only [repairReferences, List.map_map]
  rfl

end Project

/-! ### Loaded projects -/

/-- Two lists that make up a third one, both in its order. -/
structure SharedOut {α : Type} (whole first second : List α) : Prop where
  kept : first.Sublist whole
  aside : second.Sublist whole
  together : (first ++ second).Perm whole

theorem sharedOut_filter {α : Type} (keep : α → Bool) (whole : List α) :
    SharedOut whole (whole.filter keep) (whole.filter fun x => !keep x) :=
  ⟨List.filter_sublist, List.filter_sublist, List.filter_append_perm keep whole⟩

theorem Loaded.ofProject_repaired (p : Project) (warnings : List Warning) :
    (Loaded.ofProject p warnings).project.Repaired where
  references t member f inside r refers := by
    have tables := p.repairReferences_tables
    have member : t ∈ p.repairReferences.1.tables := member
    rw [tables] at member
    obtain ⟨u, _, rfl⟩ := List.mem_map.mp member
    rw [p.repairTable_fieldwise.fields] at inside
    obtain ⟨g, _, rfl⟩ := List.mem_map.mp inside
    obtain ⟨flagged, there⟩ := Project.reference_repairField refers
    exact ⟨flagged, (p.repairTable_fieldwise.holds tables r.target).trans there⟩
  endpoints r member := (List.mem_filter.mp member).2
  links m member := (List.mem_filter.mp member).2

namespace Document

open Json (Members)

variable {now : Timestamp} {name label other : String} {members : Members} {document : Json}
  {supply rest : IdSupply} {result : Loaded}

/-! ### What normalising does to lists -/

/-- An entry of a list with its timestamps in readable form. -/
def dated (now : Timestamp) (entry : Json) : Json :=
  (inObject (entryTimestamps now) entry).1

/-- The entries that a document lists under a name, or at a place if it is an array. Only objects are
normalised. -/
def entries (now : Timestamp) (name : String) (place : Nat) : Json → List Json
  | .object members => (((Members.get? name members).bind Json.asArray?).getD []).map (dated now)
  | .array values => (values[place]?.bind Json.asArray?).getD []
  | _ => []

theorem get?_timestamp (apart : other ≠ name) :
    (timestamp now label name members).1.get? other = members.get? other := by
  unfold timestamp
  split
  · split <;> rw [Members.get?_put, if_neg apart]
  · rw [Members.get?_put, if_neg apart]

theorem get?_timestamps (created : other ≠ "created_at") (updated : other ≠ "updated_at") :
    (timestamps now label members).1.get? other = members.get? other := by
  unfold timestamps
  rw [get?_timestamp updated, get?_timestamp created]

theorem get?_inItems {change : Json → Json × List Warning} (apart : other ≠ name) :
    (inItems name change members).1.get? other = members.get? other := by
  unfold inItems
  split
  · rw [Members.get?_put, if_neg apart]
  · rfl

theorem array_inItems (name : String) (change : Json → Json × List Warning) (members : Members) :
    (((inItems name change members).1.get? name).bind Json.asArray?).getD [] =
      (((members.get? name).bind Json.asArray?).getD []).map fun item => (change item).1 := by
  unfold inItems
  split
  · rename_i items listed
    rw [Members.get?_put, if_pos rfl, listed]
    simp [Json.asArray?, List.map_map, Function.comp_def]
  · rename_i unlisted
    cases given : members.get? name with
    | none => rfl
    | some value =>
      cases value with
      | array items => exact absurd given (unlisted items)
      | _ => rfl

theorem get?_tables (apart : other ≠ "tables") :
    (tables members supply).1.get? other = members.get? other := by
  unfold tables
  split
  · rw [get?_inItems apart, Members.get?_put, if_neg apart]
  · rfl

theorem get?_viewTags (metric : other ≠ "metric_views") (traditional : other ≠ "traditional_views") :
    (viewTags members).get? other = members.get? other := by
  simp only [viewTags, List.foldl_cons, List.foldl_nil]
  rw [get?_inItems traditional, get?_inItems metric]

theorem get?_listTimestamps {names : List String} (apart : other ∉ names) :
    (listTimestamps now names members).1.get? other = members.get? other := by
  induction names generalizing members with
  | nil => rfl
  | cons name names ih =>
    obtain ⟨differ, later⟩ := List.ne_and_not_mem_of_not_mem_cons apart
    rw [listTimestamps, ih later, get?_inItems differ]

/-- Each list is dated when its turn comes. -/
theorem array_listTimestamps {names : List String} (listed : name ∈ names) (once : names.Nodup) :
    (((listTimestamps now names members).1.get? name).bind Json.asArray?).getD [] =
      (((members.get? name).bind Json.asArray?).getD []).map (dated now) := by
  induction names generalizing members with
  | nil => exact absurd listed List.not_mem_nil
  | cons first names ih =>
    obtain ⟨fresh, once⟩ := List.nodup_cons.mp once
    rcases List.mem_cons.mp listed with rfl | later
    · rw [listTimestamps, get?_listTimestamps fresh, array_inItems]
      rfl
    · have apart : name ≠ first := fun same => fresh (same ▸ later)
      rw [listTimestamps, ih later once, get?_inItems apart]

/-- Of the relationships in a document only the timestamps change. -/
theorem array_normalise {place : Nat} (listed : name = "relationships" ∨ name = "metric_relationships") :
    ((Fields.part? name place (normalise now document supply).1).bind Json.asArray?).getD [] =
      entries now name place document := by
  have timed : name ∈ timestamped := by rcases listed with rfl | rfl <;> simp [timestamped]
  have apart : ∀ {other}, other ∉ ["relationships", "metric_relationships"] → name ≠ other := by
    rintro other unlisted rfl
    exact unlisted (by simpa using listed)
  cases document with
  | object members =>
    simp only [normalise, Fields.part?, entries]
    rw [array_listTimestamps timed (by decide), get?_viewTags (apart (by decide)) (apart (by decide)),
      get?_tables (apart (by decide)), get?_timestamps (apart (by decide)) (apart (by decide))]
  | _ => rfl

/-! ### What a document lists -/

/-- The items of a list that is a part of a record. -/
theorem forall₂_of_part {α : Type} {read : Json → Decode α} {place : Nat} {xs : List α}
    (found : Fields.part? name place document = none ∧ xs = [] ∨
      ∃ value, Fields.part? name place document = some value ∧
        Decode.Yields (Decode.list read) value xs) :
    List.Forall₂ (Decode.Yields read)
      (((Fields.part? name place document).bind Json.asArray?).getD []) xs := by
  rcases found with ⟨missing, rfl⟩ | ⟨value, given, yields⟩
  · rw [missing]
    exact .nil
  · obtain ⟨items, rfl, each⟩ := yields.list
    rw [given]
    exact each

/-- The project that is completed by its last four lists has both lists of relationships as given. -/
def Completing (build : List Relationship → List MetricView → List TraditionalView →
    List MetricRelationship → Project) : Prop :=
  ∀ rs vs ws ms, (build rs vs ws ms).relationships = rs ∧
    (build rs vs ws ms).metricRelationships = ms

/-- A project has the relationships that its document lists. -/
theorem decode_relationships {p : Project} (done : Project.decode document supply = .ok (p, rest)) :
    List.Forall₂ (Decode.Yields Relationship.decode)
        (((Fields.part? "relationships" 11 document).bind Json.asArray?).getD []) p.relationships ∧
      List.Forall₂ (Decode.Yields MetricRelationship.decode)
        (((Fields.part? "metric_relationships" 14 document).bind Json.asArray?).getD [])
        p.metricRelationships := by
  have whole := Fields.From.of_decode done
  obtain ⟨g₁, metricRelationships, front₁, made₁, metric⟩ := whole.last (by
    repeat' apply Fields.Builds.apply
    exact .of (by intros; trivial))
  obtain ⟨g₂, traditionalViews, front₂, made₂, _⟩ := front₁.last (by
    repeat' apply Fields.Builds.apply
    exact .of (by intros; trivial))
  obtain ⟨g₃, metricViews, front₃, made₃, _⟩ := front₂.last (by
    repeat' apply Fields.Builds.apply
    exact .of (by intros; trivial))
  obtain ⟨build, relationships, front₄, made₄, plain⟩ := front₃.last (by
    repeat' apply Fields.Builds.apply
    exact .of (by intros; trivial))
  have completing : Completing build := by
    refine front₄.property ?_
    repeat' apply Fields.Builds.apply
    exact .of fun _ _ _ _ _ _ _ _ _ _ _ _ _ _ _ => ⟨rfl, rfl⟩
  obtain ⟨first, last⟩ := completing relationships metricViews traditionalViews metricRelationships
  rw [made₁, made₂, made₃, made₄, first, last]
  exact ⟨forall₂_of_part plain, forall₂_of_part metric⟩

/-! ### Loading -/

/-- What loading achieves: at most repeated identifiers are left to complain about, a session opens
over a project without them, and the relationships of the document are kept or set aside. -/
structure Repairs (now : Timestamp) (document : Json) (result : Loaded) : Prop where
  repetition : ∀ e ∈ result.project.inconsistencies, ∃ entity problem,
    e = .duplicateEntity entity problem
  opens : result.project.Keyed → (result.project.relationships.map (·.id)).Nodup → ∀ policy,
    Session.open? policy result.project = .ok ⟨Session.settled policy result.project, policy⟩
  relationships : ∃ listed,
    List.Forall₂ (Decode.Yields Relationship.decode) (entries now "relationships" 11 document)
      listed ∧ SharedOut listed result.project.relationships result.orphans
  metricRelationships : ∃ listed,
    List.Forall₂ (Decode.Yields MetricRelationship.decode)
      (entries now "metric_relationships" 14 document) listed ∧
      SharedOut listed result.project.metricRelationships result.metricOrphans

theorem load_eq_ok (loaded : load now document supply = .ok (result, rest)) :
    ∃ p, Project.decode (normalise now document supply).1 (normalise now document supply).2.2 =
        .ok (p, rest) ∧
      result = Loaded.ofProject p (normalise now document supply).2.1 := by
  obtain ⟨⟨p, next⟩, read, done⟩ := bind_eq_ok_iff.mp loaded
  obtain ⟨rfl, rfl⟩ := Prod.mk.inj (Except.ok.inj done)
  exact ⟨p, read, rfl⟩

/-- Whatever document is accepted, it is repaired. -/
theorem load_repairs (loaded : load now document supply = .ok (result, rest)) :
    Repairs now document result := by
  obtain ⟨p, read, rfl⟩ := load_eq_ok loaded
  have repaired := Loaded.ofProject_repaired p (normalise now document supply).2.1
  obtain ⟨plain, metric⟩ := decode_relationships read
  rw [array_normalise (.inl rfl)] at plain
  rw [array_normalise (.inr rfl)] at metric
  refine ⟨fun _ => repaired.repetition, fun keyed relationships policy => ?_,
    ⟨p.relationships, plain, ?_⟩, ⟨p.metricRelationships, metric, ?_⟩⟩
  · exact Session.open?_eq_ok_iff.mpr ⟨repaired.consistent keyed relationships, rfl⟩
  · exact sharedOut_filter p.repairReferences.1.anchors p.relationships
  · exact sharedOut_filter p.repairReferences.1.anchorsMetric p.metricRelationships

theorem load_written {p : Project} (storable : p.Storable) (now : Timestamp) (supply : IdSupply) :
    load now p.toJson.sorted supply = .ok (Loaded.ofProject p [], supply) := by
  have read : (Project.decode (p.dated now).sorted).run supply = .ok (p, supply) :=
    Project.reads storable now supply
  simp only [load, normalise_toJson storable, read, bind, Except.bind]
  rfl

/-- A shop where a field of the baskets refers to an order number that no table has. -/
def brokenShop : Project :=
  { webShop with
    tables := webShop.tables ++
      [ { Table.plain "B" "baskets" Project.newYear with
          fields := [(Field.plain "G" "order_id" .bigint).referring ⟨"O", "Z"⟩] } ]
    relationships := webShop.relationships ++
      [.between "OB" ⟨"O", "Z"⟩ ⟨"B", "G"⟩ Project.newYear]
    metricRelationships := .between "BW" "B" "W" Project.newYear :: webShop.metricRelationships }

theorem brokenShop_storable : brokenShop.Storable := by
  have shop := webShop_storable
  have plain : Project.newYear.Plain := ⟨by decide, by decide⟩
  refine ⟨shop.canvas, plain, plain, ?_, ?_, shop.metricViews, shop.traditionalViews, ?_⟩
  · intro t member
    rcases List.mem_append.mp member with old | new
    · exact shop.tables t old
    · obtain rfl := List.mem_singleton.mp new
      refine ⟨⟨by decide, by decide⟩, ⟨by decide, by decide⟩, ?_, plain, plain⟩
      intro f inside parameters given
      obtain rfl := List.mem_singleton.mp inside
      contradiction
  · intro r member
    rcases List.mem_append.mp member with old | new
    · exact shop.relationships r old
    · obtain rfl := List.mem_singleton.mp new
      exact ⟨nofun, plain, plain⟩
  · intro m member
    rcases List.mem_cons.mp member with rfl | old
    · exact ⟨nofun, nofun, plain⟩
    · exact shop.metricRelationships m old

/-- The reference is dropped, and both relationships that lead nowhere are set aside. -/
theorem load_brokenShop :
    load Project.newYear brokenShop.toJson.sorted ⟨7⟩ =
        .ok (Loaded.ofProject brokenShop [], ⟨7⟩) ∧
      brokenShop.inconsistencies ≠ [] ∧
      (Loaded.ofProject brokenShop []).orphans.map (·.id) = ["OB"] ∧
      (Loaded.ofProject brokenShop []).metricOrphans.map (·.id) = ["BW"] ∧
      Repairs Project.newYear brokenShop.toJson.sorted (Loaded.ofProject brokenShop []) :=
  have loaded := load_written brokenShop_storable Project.newYear ⟨7⟩
  ⟨loaded, by decide, by decide, by decide, load_repairs loaded⟩

end Document
end LakeSchema
