import LakeSchema.Proofs.Edit.Import
import LakeSchema.Proofs.Edit.Undated
import LakeSchema.Proofs.Session.Provenance

/-!
# Times of last changes

A command notes its time in everything that it changes, with one exception: an imported relationship
that makes a foreign key of a plain field leaves the time of the field's table as it was.
`run_changesStamped_iff` says that this is the only one.
-/

namespace LakeSchema

/-- Every item that has an identifier from before is one from before, its time aside, or has the time
`now`. -/
def Stamped {α : Type} (id : α → String) (updatedAt : α → Timestamp) (undated : α → α)
    (now : Timestamp) (before after : List α) : Prop :=
  ∀ y ∈ after, (∃ x ∈ before, id x = id y) →
    (∃ x ∈ before, undated x = undated y) ∨ updatedAt y = now

theorem Stamped.of_accounted {α : Type} {id : α → String} {updatedAt : α → Timestamp}
    {undated : α → α} {now : Timestamp} {before after : List α}
    (accounted : Accounted (fun y => updatedAt y = now ∨ ∀ x ∈ before, id x ≠ id y) before after) :
    Stamped id updatedAt undated now before after := by
  rintro y member ⟨x, present, same⟩
  rcases accounted y member with old | noted | new
  · exact .inl ⟨y, old, rfl⟩
  · exact .inr noted
  · exact (new x present same).elim

def Table.referenceOf? (t : Table) (id : String) : Option Reference :=
  (t.field? id).bind (·.reference)

/-- Entities without the time of their last change. -/
def Relationship.undated (r : Relationship) : Relationship :=
  { r with updatedAt := r.createdAt }

def MetricView.undated (v : MetricView) : MetricView :=
  { v with updatedAt := v.createdAt }

def TraditionalView.undated (v : TraditionalView) : TraditionalView :=
  { v with updatedAt := v.createdAt }

/-- The second project notes the time of all changes to the first. -/
structure Project.ChangesStamped (now : Timestamp) (p q : Project) : Prop where
  project : q.updatedAt = now
  tables : Stamped Table.id Table.updatedAt Table.undated now p.tables q.tables
  relationships : Stamped Relationship.id Relationship.updatedAt Relationship.undated now
    p.relationships q.relationships
  metricViews : Stamped MetricView.id MetricView.updatedAt MetricView.undated now
    p.metricViews q.metricViews
  traditionalViews : Stamped TraditionalView.id TraditionalView.updatedAt TraditionalView.undated now
    p.traditionalViews q.traditionalViews

/-- A relationship of the import makes a foreign key of a plain field in a table of the project that
was not changed at the time. -/
def Import.Retrofits (incoming : Import) (p : Project) (now : Timestamp) : Prop :=
  ∃ r ∈ incoming.relationships, ∃ t f, p.table? r.dependent.table = some t ∧ t.updatedAt ≠ now ∧
    t.field? r.dependent.field = some f ∧ f.reference = none

namespace Project

variable {p q : Project} {now : Timestamp} {r : Relationship} {rs : List Relationship}

theorem Derived.changesStamped {given : List String} (derived : Derived given now p q)
    (project : q.updatedAt = now) : p.ChangesStamped now q where
  project := project
  tables := .of_accounted ((Accounted.refl _ _).trans derived.tables fun _ wrote =>
    .inl wrote.updatedAt)
  relationships := .of_accounted ((Accounted.refl _ _).trans derived.relationships fun _ => .inl)
  metricViews := .of_accounted ((Accounted.refl _ _).trans derived.metricViews fun _ wrote =>
    .inl wrote.1)
  traditionalViews := .of_accounted ((Accounted.refl _ _).trans derived.traditionalViews
    fun _ wrote => .inl wrote.1)

/-! ### Imports -/

/-- A relationship changes a table from before only by making a foreign key of a plain field. -/
theorem joinRelationship_accounted (keyed : p.Keyed)
    (kept : ∀ t f, p.table? r.dependent.table = some t → t.updatedAt ≠ now →
      t.field? r.dependent.field = some f → f.reference ≠ none)
    (accounted : Accounted (·.updatedAt = now) p.tables q.tables) :
    Accounted (·.updatedAt = now) p.tables (q.joinRelationship r).tables := by
  intro u member
  rw [joinRelationship_tables] at member
  rcases mem_updateFirst member with there | ⟨t, there, here, rfl⟩
  · exact accounted u there
  -- A table that was changed already may be changed again.
  by_cases noted : t.updatedAt = now
  · exact .inr noted
  have old : t ∈ p.tables := (accounted t there).resolve_right noted
  have located : p.table? r.dependent.table = some t :=
    (find?_eq_some_iff_mem keyed.tables).mpr ⟨old, beq_iff_eq.mp here⟩
  have same : updateFirst (·.id == r.dependent.field) (q.joined r) t.fields = t.fields :=
    updateFirst_eq_self fun f present => joined_of_refers (kept t f located noted present)
  rw [same]
  exact .inl old

theorem foldl_join_accounted (keyed : p.Keyed)
    (kept : ∀ r ∈ rs, ∀ t f, p.table? r.dependent.table = some t → t.updatedAt ≠ now →
      t.field? r.dependent.field = some f → f.reference ≠ none)
    (accounted : Accounted (·.updatedAt = now) p.tables q.tables) :
    Accounted (·.updatedAt = now) p.tables (rs.foldl joinRelationship q).tables := by
  induction rs generalizing q with
  | nil => exact accounted
  | cons r rest ih =>
    rw [List.forall_mem_cons] at kept
    exact ih kept.2 (joinRelationship_accounted keyed kept.1 accounted)

theorem merge_accounted {incoming : Import} {answer : ImportSummary} (keyed : p.Keyed)
    (kept : ¬ incoming.Retrofits p now) (done : p.merge incoming now = .ok (answer, q)) :
    Accounted (·.updatedAt = now) p.tables q.tables := by
  obtain ⟨_, rfl⟩ := merge_effect done
  refine foldl_join_accounted keyed (fun r member t f located old present plain => ?_) ?_
  · exact kept ⟨r, member, t, f, located, old, present, plain⟩
  · exact .append fun t member => by
      obtain ⟨u, _, rfl⟩ := List.mem_map.mp member
      rfl

/-- The table of a plain field that an import makes a foreign key keeps its time. -/
theorem merge_retrofits {incoming : Import} {answer : ImportSummary}
    (retrofits : incoming.Retrofits p now) (done : p.merge incoming now = .ok (answer, q)) :
    ∃ t ∈ p.tables, ∃ u ∈ q.tables, ∃ id, u.id = t.id ∧ u.updatedAt = t.updatedAt ∧
      t.updatedAt ≠ now ∧ t.referenceOf? id = none ∧ u.referenceOf? id ≠ none := by
  obtain ⟨r, member, t, f, located, old, present, plain⟩ := retrofits
  obtain ⟨_, rfl⟩ := merge_effect done
  have found : p.field? r.dependent = some f := (field?_of_table? located rfl).trans present
  have start := field?_joinTables (q := p.joinTables incoming.tables now) found rfl
  obtain ⟨g, after, refers⟩ := foldl_join_refers member start
  obtain ⟨u, there, held⟩ := Option.bind_eq_some_iff.mp after
  have still : (p.joinTables incoming.tables now).table? r.dependent.table = some t :=
    find?_append_of_some located _
  have times := table?_foldl_join (p.joinTables incoming.tables now) incoming.relationships
    r.dependent.table
  rw [there, still, Option.map_some, Option.map_some, Option.some_inj] at times
  refine ⟨t, List.mem_of_find?_eq_some located, u, List.mem_of_find?_eq_some there,
    r.dependent.field, (table?_id there).trans (table?_id located).symm, times, old, ?_, ?_⟩
  · rw [Table.referenceOf?, present]
    exact plain
  · rw [Table.referenceOf?, held]
    exact refers

end Project

namespace Session

variable {s next : Session} {now : Timestamp} {command : Command} {outcome : Outcome}

theorem settledTable_referenceOf? (policy : OriginPolicy) (p : Project) (t : Table) (id : String) :
    (settledTable policy p t).referenceOf? id = t.referenceOf? id := by
  cases policy with
  | explicit =>
    have same : ((fun f : Field => f.id == id) ∘ p.recordOrigin) = fun f => f.id == id := by
      funext f
      exact congrArg (· == id) (p.recordOrigin_keeps f).1
    rw [Table.referenceOf?, settledTable, Table.field?, List.find?_map, same, Option.bind_map]
    exact congrArg _ (funext fun f => (p.recordOrigin_keeps f).2.1)
  | nameMatch => rfl

/-- An import notes the times of its changes if it retrofits no table. -/
theorem merge_changesStamped_iff {incoming : Import} (sound : s.Sound)
    (done : s.run now (.merge incoming) = .ok (outcome, next)) :
    s.project.ChangesStamped now next.project ↔ ¬ incoming.Retrofits s.project now := by
  obtain ⟨answer, q, merged, committed, _⟩ := apply_eq_ok_iff.mp done
  obtain ⟨tables, noted⟩ := commit_tables committed
  constructor
  · intro stamped retrofits
    obtain ⟨t, old, u, there, id, same, times, unnoted, plain, refers⟩ :=
      Project.merge_retrofits retrofits merged
    obtain ⟨sameId, _, time, _⟩ := settledTable_keeps s.policy q u
    have member : settledTable s.policy q u ∈ next.project.tables :=
      tables ▸ List.mem_map_of_mem there
    rcases stamped.tables _ member ⟨t, old, (sameId.trans same).symm⟩ with ⟨x, present, equal⟩ | now
    · have alike : x.id = t.id := ((congrArg Table.id equal).trans sameId).trans same
      obtain rfl : x = t :=
        List.inj_on_of_nodup_map sound.consistent.tables present old alike
      have referred : x.undated.referenceOf? id = (settledTable s.policy q u).undated.referenceOf? id :=
        congrArg (Table.referenceOf? · id) equal
      change x.referenceOf? id = (settledTable s.policy q u).referenceOf? id at referred
      rw [settledTable_referenceOf?, plain] at referred
      exact refers referred.symm
    · exact unnoted ((time.trans times).symm.trans now)
  · intro kept
    obtain ⟨relationships, metricViews, traditionalViews, _⟩ := commit_keeps committed
    have stamped : Accounted (·.updatedAt = now) s.project.tables next.project.tables :=
      commit_accounted sound
        (fun t time => (settledTable_keeps s.policy q t).2.2.1.trans time)
        (Project.merge_accounted sound.consistent.toKeyed kept merged) committed
    obtain ⟨fresh, rfl⟩ := Project.merge_effect merged
    rw [Project.foldl_join_relationships] at relationships
    rw [Project.foldl_join_views.1] at metricViews
    rw [Project.foldl_join_views.2] at traditionalViews
    refine ⟨noted, .of_accounted ?_, .of_accounted ?_, .of_accounted ?_, .of_accounted ?_⟩
    · exact (Accounted.refl _ _).trans stamped fun _ => .inl
    · rw [relationships]
      exact .append fun r member => .inr fun x present same =>
        fresh r member (same ▸ List.mem_map_of_mem present)
    · rw [metricViews]
      exact .refl _ _
    · rw [traditionalViews]
      exact .refl _ _

theorem run_updatedAt (editing : ∀ p, command ≠ .reset p)
    (done : s.run now command = .ok (outcome, next)) : next.project.updatedAt = now := by
  have noted {α : Type} {shown : α → Outcome} {op : Session → Except SchemaError (α × Project)}
      (done : (apply now shown op).result s = .ok (outcome, next)) : next.project.updatedAt = now := by
    obtain ⟨_, _, _, committed, _⟩ := apply_eq_ok_iff.mp done
    exact (commit_tables committed).2
  cases command with
  | reset p => exact (editing p rfl).elim
  | _ => exact noted done

/-- In every session a command notes its time in the project and in all that it changes, unless it is
an import that retrofits a table of the project. -/
theorem run_changesStamped_iff (reachable : Reachable s) (editing : ∀ p, command ≠ .reset p)
    (done : s.run now command = .ok (outcome, next)) :
    s.project.ChangesStamped now next.project ↔
      ∀ incoming, command = .merge incoming → ¬ incoming.Retrofits s.project now := by
  have derived (edits : command.edits) : s.project.ChangesStamped now next.project :=
    (run_derived reachable.sound edits done).changesStamped (run_updatedAt editing done)
  cases command with
  | merge incoming =>
    rw [merge_changesStamped_iff reachable.sound done]
    exact ⟨fun kept _ same => Command.merge.inj same ▸ kept, fun kept => kept incoming rfl⟩
  | reset p => exact (editing p rfl).elim
  | _ => exact iff_of_true (derived rfl) nofun

def noon : Timestamp :=
  .ofClock Project.newYear.date 12 0 0 0

/-- Stores that do not refer to regions yet. -/
def plainStores : Session :=
  regionsOnly.after Project.newYear (.addTable (newTable "S" "stores" [.plain "L" "id" .int]))

def regionsToStores : Import :=
  ⟨[], [.between "RS" ⟨"R", "K"⟩ ⟨"S", "L"⟩ Project.newYear]⟩

theorem plainStores_reachable : Reachable plainStores :=
  .after Project.newYear _ regionsOnly_reachable

/-- The import makes a foreign key in the table of stores, which keeps the time of its creation. -/
theorem plainStores_import_unstamped :
    ∃ outcome next, Reachable plainStores ∧
      plainStores.run noon (.merge regionsToStores) = .ok (outcome, next) ∧
      ¬ plainStores.project.ChangesStamped noon next.project := by
  obtain ⟨outcome, next, done⟩ : ∃ outcome next,
      plainStores.run noon (.merge regionsToStores) = .ok (outcome, next) := ⟨_, _, rfl⟩
  refine ⟨outcome, next, plainStores_reachable, done, fun stamped => ?_⟩
  refine (merge_changesStamped_iff plainStores_reachable.sound done).mp stamped ?_
  exact ⟨_, List.mem_singleton_self _, _, _, rfl, by decide, rfl, rfl⟩

def connectStores : Command :=
  .connect ⟨⟨"R", "K"⟩, "S", "M", "RS"⟩

/-- Connecting regions to stores makes the same foreign key and notes the time. -/
theorem plainStores_connect_stamped :
    Reachable plainStores ∧ (∀ p, connectStores ≠ .reset p) ∧
      ∃ outcome next, plainStores.run noon connectStores = .ok (outcome, next) ∧
        plainStores.project.ChangesStamped noon next.project := by
  have editing : ∀ p, connectStores ≠ .reset p := by simp [connectStores]
  have single : ∀ incoming, connectStores ≠ .merge incoming := by simp [connectStores]
  obtain ⟨outcome, next, done⟩ : ∃ outcome next,
      plainStores.run noon connectStores = .ok (outcome, next) := ⟨_, _, rfl⟩
  refine ⟨plainStores_reachable, editing, outcome, next, done, ?_⟩
  exact (run_changesStamped_iff plainStores_reachable editing done).mpr fun incoming merges =>
    (single incoming merges).elim

end Session
end LakeSchema
