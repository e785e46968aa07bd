import LakeSchema.Edit.Import
import LakeSchema.Proofs.Check.Consistency

/-!
# What an import does

The imported tables come behind those of the project, then the relationships join one after the other
(`merge_eq_ok_iff`). A relationship that joins renames nothing and leaves foreign keys alone; its
dependent field refers to something after it. If identifiers are distinct, each field looks for the
first relationship that depends on it (`foldl_join_eq`).
-/

namespace LakeSchema

namespace Table

/-- The names of a table and of its fields. -/
def names (t : Table) : String × List String :=
  (t.name, t.fields.map (·.name))

def ids (t : Table) : String × List String :=
  (t.id, t.fields.map (·.id))

/-- Two tables that can be in one project. -/
def Apart (t u : Table) : Prop :=
  t.id ≠ u.id ∧ Text.lowered t.name ≠ Text.lowered u.name

theorem Apart.symm {t u : Table} (apart : t.Apart u) : u.Apart t :=
  ⟨apart.1.symm, apart.2.symm⟩

end Table

/-! ### Conflicts -/

namespace NamingConflict

variable {known incoming : List Table} {t : Table}

theorem find?_eq_none_iff : find? known t = none ↔ ∀ u ∈ known, t.Apart u := by
  unfold find?
  constructor
  · intro free u member
    split at free
    · contradiction
    · rename_i unknown
      have unnamed := List.find?_eq_none.mp (Option.map_eq_none_iff.mp free)
      have id := List.find?_eq_none.mp unknown u member
      have name := unnamed u member
      rw [beq_iff_eq] at id name
      exact ⟨Ne.symm id, Ne.symm name⟩
  · intro apart
    have unknown : known.find? (·.id == t.id) = none := by
      refine List.find?_eq_none.mpr fun u member => ?_
      simpa using (apart u member).1.symm
    rw [unknown]
    refine Option.map_eq_none_iff.mpr (List.find?_eq_none.mpr fun u member => ?_)
    simpa using (apart u member).2.symm

theorem among_eq_nil_iff :
    among known incoming = [] ↔
      (∀ t ∈ incoming, ∀ u ∈ known, t.Apart u) ∧ incoming.Pairwise Table.Apart := by
  induction incoming generalizing known with
  | nil => simp [among]
  | cons t rest ih =>
    rw [among, List.pairwise_cons, List.forall_mem_cons]
    cases found : find? known t with
    | some conflict =>
      have conflicting : ¬ ∀ u ∈ known, t.Apart u := by
        rw [← find?_eq_none_iff, found]
        simp
      simp [conflicting]
    | none =>
      have apart := find?_eq_none_iff.mp found
      rw [ih]
      constructor
      · rintro ⟨others, distinct⟩
        refine ⟨⟨apart, fun u member v inside => ?_⟩, fun u member => ?_, distinct⟩
        · exact others u member v (List.mem_cons_of_mem t inside)
        · exact (others u member t List.mem_cons_self).symm
      · rintro ⟨⟨_, others⟩, first, distinct⟩
        refine ⟨fun u member => ?_, distinct⟩
        exact List.forall_mem_cons.mpr ⟨(first u member).symm, others u member⟩

theorem all_eq_nil_iff {existing : List Table} :
    all existing incoming = [] ↔
      (∀ t ∈ incoming, ∀ u ∈ existing, t.Apart u) ∧ incoming.Pairwise Table.Apart := by
  simp only [all, among_eq_nil_iff, List.mem_reverse]

end NamingConflict

namespace Project

variable {p q : Project} {now : Timestamp} {l : Location} {f : Field} {r : Relationship}
  {rs : List Relationship}

/-- The project with the tables of an import, but not its relationships. -/
def joinTables (p : Project) (tables : List Table) (now : Timestamp) : Project :=
  { p with tables := p.tables ++ tables.map (·.touch now) }

theorem repeatedRelationship?_eq_none_iff {known : List String} :
    repeatedRelationship? known rs = none ↔
      (∀ r ∈ rs, r.id ∉ known) ∧ (rs.map (·.id)).Nodup := by
  induction rs generalizing known with
  | nil => simp [repeatedRelationship?]
  | cons first rest ih =>
    rw [repeatedRelationship?, List.forall_mem_cons, List.map_cons, List.nodup_cons]
    by_cases inside : first.id ∈ known
    · simp [inside]
    · simp only [List.contains_iff_mem, inside, if_false, ih, List.mem_cons, not_or, List.mem_map,
        not_exists, not_false_eq_true, true_and]
      constructor
      · rintro ⟨others, distinct⟩
        exact ⟨fun r member => (others r member).2, fun r found => (others r found.1).1 found.2,
          distinct⟩
      · rintro ⟨others, first, distinct⟩
        exact ⟨fun r member => ⟨fun same => first r ⟨member, same⟩, others r member⟩, distinct⟩

/-- No identifier and no name of an import is taken, in the project or by the import itself. -/
structure Admits (p : Project) (incoming : Import) : Prop where
  newTables : ∀ t ∈ incoming.tables, ∀ u ∈ p.tables, t.Apart u
  tables : incoming.tables.Pairwise Table.Apart
  newRelationships : ∀ r ∈ incoming.relationships, r.id ∉ p.relationships.map (·.id)
  relationships : (incoming.relationships.map (·.id)).Nodup

theorem merge_eq_ok_iff {incoming : Import} {answer : ImportSummary} :
    p.merge incoming now = .ok (answer, q) ↔
      p.Admits incoming ∧
        answer = ⟨incoming.tables.map (·.id), incoming.relationships.map (·.id)⟩ ∧
        q = incoming.relationships.foldl joinRelationship (p.joinTables incoming.tables now) := by
  have admits : p.Admits incoming ↔ NamingConflict.all p.tables incoming.tables = [] ∧
      repeatedRelationship? (p.relationships.map (·.id)) incoming.relationships = none := by
    rw [NamingConflict.all_eq_nil_iff, repeatedRelationship?_eq_none_iff]
    exact ⟨fun ⟨one, two, three, four⟩ => ⟨⟨one, two⟩, three, four⟩,
      fun ⟨⟨one, two⟩, three, four⟩ => ⟨one, two, three, four⟩⟩
  rw [admits, merge]
  cases NamingConflict.all p.tables incoming.tables with
  | cons conflict rest => simp
  | nil =>
    cases repeatedRelationship? (p.relationships.map (·.id)) incoming.relationships with
    | some id => simp
    | none =>
      simp only [Except.ok.injEq, Prod.mk.injEq, joinTables, true_and]
      exact and_congr eq_comm eq_comm

theorem merge_effect {incoming : Import} {answer : ImportSummary}
    (done : p.merge incoming now = .ok (answer, q)) :
    (∀ r ∈ incoming.relationships, r.id ∉ p.relationships.map (·.id)) ∧
      q = incoming.relationships.foldl joinRelationship (p.joinTables incoming.tables now) := by
  obtain ⟨admits, _, same⟩ := merge_eq_ok_iff.mp done
  exact ⟨admits.newRelationships, same⟩

/-! ### One relationship -/

/-- The dependent field of a relationship that joins: a foreign key unless it is one. -/
def joined (p : Project) (r : Relationship) (f : Field) : Field :=
  match f.reference with
  | some _ => f
  | none =>
    f.attach { Reference.ofTarget r.source with constraintName := r.constraintName }
      (f.originByName ((p.field? r.source).map (·.name)))

theorem joined_keeps (p : Project) (r : Relationship) (f : Field) :
    (p.joined r f).id = f.id ∧ (p.joined r f).name = f.name := by
  unfold joined
  split <;> exact ⟨rfl, rfl⟩

theorem joined_refers (p : Project) (r : Relationship) (f : Field) :
    (p.joined r f).reference ≠ none := by
  unfold joined
  split
  · rename_i refers
    simp [refers]
  · simp [Field.attach]

theorem joined_of_refers (refers : f.reference ≠ none) : p.joined r f = f := by
  unfold joined
  split
  · rfl
  · rename_i plain
    exact (refers plain).elim

theorem joinRelationship_tables :
    (p.joinRelationship r).tables = (p.updateFieldAt r.dependent (p.joined r)).tables :=
  rfl

theorem field?_joinRelationship :
    (p.joinRelationship r).field? l =
      if l = r.dependent then (p.field? l).map (p.joined r) else p.field? l :=
  (field?_of_tables joinRelationship_tables l).trans
    (field?_updateField (fun _ => rfl) (fun _ => rfl) fun f => (p.joined_keeps r f).1)

theorem joinRelationship_names :
    (p.joinRelationship r).tables.map Table.names = p.tables.map Table.names := by
  rw [joinRelationship_tables]
  refine updateFirst_map_key fun t => congrArg (Prod.mk t.name) ?_
  exact updateFirst_map_key fun f => (p.joined_keeps r f).2

/-! ### Many relationships -/

theorem foldl_join_relationships :
    (rs.foldl joinRelationship p).relationships = p.relationships ++ rs := by
  induction rs generalizing p with
  | nil => exact (List.append_nil _).symm
  | cons r rest ih =>
    rw [List.foldl_cons, ih]
    exact (List.append_cons p.relationships r rest).symm

/-- What each relationship that joins leaves as it is, all of them do. -/
theorem foldl_join_keeps {α : Type} (view : Project → α)
    (kept : ∀ p r, view (joinRelationship p r) = view p) :
    view (rs.foldl joinRelationship p) = view p := by
  induction rs generalizing p with
  | nil => rfl
  | cons r rest ih => exact ih.trans (kept p r)

theorem foldl_join_views :
    (rs.foldl joinRelationship p).metricViews = p.metricViews ∧
      (rs.foldl joinRelationship p).traditionalViews = p.traditionalViews :=
  ⟨foldl_join_keeps (·.metricViews) fun _ _ => rfl,
    foldl_join_keeps (·.traditionalViews) fun _ _ => rfl⟩

theorem foldl_join_names :
    (rs.foldl joinRelationship p).tables.map Table.names = p.tables.map Table.names :=
  foldl_join_keeps (·.tables.map Table.names) fun _ _ => joinRelationship_names

theorem table?_foldl_join (p : Project) (rs : List Relationship) (id : String) :
    ((rs.foldl joinRelationship p).table? id).map (·.updatedAt) =
      (p.table? id).map (·.updatedAt) := by
  refine foldl_join_keeps (fun p => (p.table? id).map (·.updatedAt)) fun p r => ?_
  change ((p.updateTable r.dependent.table _).table? id).map _ = _
  rw [table?_updateTable (by intro t; rfl)]
  split
  · rw [Option.map_map]
    rfl
  · rfl

/-- Imported relationships leave foreign keys alone. -/
theorem field?_foldl_join (found : p.field? l = some f) (refers : f.reference ≠ none) :
    (rs.foldl joinRelationship p).field? l = some f := by
  induction rs generalizing p with
  | nil => exact found
  | cons r rest ih =>
    refine ih ?_
    rw [field?_joinRelationship, found, Option.map_some, joined_of_refers refers, ite_self]

/-- Imported relationships make foreign keys of their dependent fields. -/
theorem foldl_join_refers (member : r ∈ rs) (found : p.field? r.dependent = some f) :
    ∃ g, (rs.foldl joinRelationship p).field? r.dependent = some g ∧ g.reference ≠ none := by
  induction rs generalizing p f with
  | nil => exact (List.not_mem_nil member).elim
  | cons first rest ih =>
    have after : (p.joinRelationship first).field? r.dependent =
        some (if r.dependent = first.dependent then p.joined first f else f) := by
      rw [field?_joinRelationship, found]
      split <;> rfl
    rw [List.foldl_cons]
    rcases List.mem_cons.mp member with rfl | later
    · rw [if_pos rfl] at after
      exact ⟨_, field?_foldl_join after (p.joined_refers r f), p.joined_refers r f⟩
    · exact ih later after

/-! ### All at once -/

/-- The field at `l` with the first of some relationships that depends on it. -/
def joinedFirst (p : Project) (rs : List Relationship) (l : Location) (f : Field) : Field :=
  match rs.find? (·.dependent == l) with
  | some r => p.joined r f
  | none => f

/-- The table with each field joined on its own. -/
def joinedTable (p : Project) (rs : List Relationship) (t : Table) : Table :=
  { t with fields := t.fields.map fun f => p.joinedFirst rs ⟨t.id, f.id⟩ f }

/-- The project with an import, each of its fields with the first relationship that depends on it. -/
def merged (p : Project) (incoming : Import) (now : Timestamp) : Project :=
  let q := p.joinTables incoming.tables now
  { q with
    tables := q.tables.map (q.joinedTable incoming.relationships)
    relationships := p.relationships ++ incoming.relationships }

theorem joinedFirst_keeps (p : Project) (rs : List Relationship) (l : Location) (f : Field) :
    (p.joinedFirst rs l f).id = f.id ∧ (p.joinedFirst rs l f).name = f.name := by
  unfold joinedFirst
  split
  · exact p.joined_keeps _ f
  · exact ⟨rfl, rfl⟩

theorem joinedFirst_refers (p : Project) (member : r ∈ rs) (f : Field) :
    (p.joinedFirst rs r.dependent f).reference ≠ none := by
  unfold joinedFirst
  split
  · exact p.joined_refers _ f
  · rename_i absent
    exact (List.find?_eq_none.mp absent r member (beq_self_eq_true _)).elim

theorem joinedTable_fieldwise (p : Project) (rs : List Relationship) :
    Fieldwise (p.joinedTable rs) (p.joinedFirst rs) where
  id _ := rfl
  fields _ := rfl
  fieldId l f := (p.joinedFirst_keeps rs l f).1

theorem joined_congr (same : ∀ l, (q.field? l).map (·.name) = (p.field? l).map (·.name)) :
    q.joined = p.joined := by
  funext r f
  unfold joined
  rw [same]

theorem joinRelationship_joined (p : Project) (r : Relationship) :
    (p.joinRelationship r).joined = p.joined := by
  refine joined_congr fun l => ?_
  rw [field?_joinRelationship]
  split
  · rw [Option.map_map]
    congr 1
    funext f
    exact (p.joined_keeps r f).2
  · rfl

theorem joinRelationship_ids :
    (p.joinRelationship r).tables.map Table.ids = p.tables.map Table.ids := by
  rw [joinRelationship_tables]
  refine updateFirst_map_key fun t => congrArg (Prod.mk t.id) ?_
  exact updateFirst_map_key fun f => (p.joined_keeps r f).1

theorem foldl_join_ids :
    (rs.foldl joinRelationship p).tables.map Table.ids = p.tables.map Table.ids :=
  foldl_join_keeps (·.tables.map Table.ids) fun _ _ => joinRelationship_ids

theorem Keyed.of_ids (keyed : p.Keyed) (same : q.tables.map Table.ids = p.tables.map Table.ids) :
    q.Keyed := by
  refine keyed.of_sublists ?_ fun t member => ?_
  · have ids := congrArg (List.map Prod.fst) same
    rw [List.map_map, List.map_map] at ids
    exact ids ▸ .refl _
  · have listed : t.ids ∈ p.tables.map Table.ids := same ▸ List.mem_map_of_mem member
    obtain ⟨u, present, alike⟩ := List.mem_map.mp listed
    exact ⟨u, present, (Prod.mk.inj alike).2 ▸ .refl _⟩

theorem updateFieldAt_tables (keyed : p.Keyed) (l : Location) (change : Field → Field) :
    (p.updateFieldAt l change).tables = p.tables.map fun t =>
      { t with fields := t.fields.map fun f => if ⟨t.id, f.id⟩ = l then change f else f } := by
  rw [updateFieldAt, updateTable, updateFirst_eq_map keyed.tables]
  refine List.map_congr_left fun t member => ?_
  obtain ⟨table, field⟩ := l
  rw [updateFirst_eq_map (keyed.fields t member)]
  by_cases inside : t.id = table <;> simp [inside]

theorem joinRelationship_map (keyed : p.Keyed) (r : Relationship) :
    (p.joinRelationship r).tables = p.tables.map (p.joinedTable [r]) := by
  rw [joinRelationship_tables, updateFieldAt_tables keyed]
  refine List.map_congr_left fun t _ => ?_
  unfold joinedTable
  congr 1
  refine List.map_congr_left fun f _ => ?_
  by_cases here : r.dependent = ⟨t.id, f.id⟩
  · simp [joinedFirst, here]
  · rw [if_neg (Ne.symm here)]
    simp [joinedFirst, here]

/-- The field at a location is settled by the first relationship that depends on it. -/
theorem joinedFirst_cons (p : Project) (r : Relationship) (rs : List Relationship) (l : Location)
    (f : Field) :
    p.joinedFirst (r :: rs) l f =
      (p.joinRelationship r).joinedFirst rs l (p.joinedFirst [r] l f) := by
  have same := p.joinRelationship_joined r
  unfold joinedFirst
  by_cases here : r.dependent = l
  · simp only [List.find?_cons, here, beq_self_eq_true]
    split
    · exact (joined_of_refers (p.joined_refers r f)).symm
    · rfl
  · simp [here, same]

theorem foldl_join_tables (keyed : p.Keyed) (rs : List Relationship) :
    (rs.foldl joinRelationship p).tables = p.tables.map (p.joinedTable rs) := by
  induction rs generalizing p with
  | nil =>
    have idle : p.joinedTable [] = fun t => t := by
      funext t
      simp [joinedTable, joinedFirst]
    rw [idle, List.map_id']
    rfl
  | cons r rest ih =>
    rw [List.foldl_cons, ih (keyed.of_ids joinRelationship_ids), joinRelationship_map keyed,
      List.map_map]
    refine List.map_congr_left fun t _ => ?_
    simp only [Function.comp_apply, joinedTable, List.map_map]
    congr 1
    refine List.map_congr_left fun f _ => ?_
    rw [joinedFirst_cons, Function.comp_apply, (p.joinedFirst_keeps [r] _ f).1]

theorem foldl_join_others :
    rs.foldl joinRelationship p =
      { p with
        tables := (rs.foldl joinRelationship p).tables
        relationships := p.relationships ++ rs } := by
  induction rs generalizing p with
  | nil => simp
  | cons r rest ih =>
    rw [List.foldl_cons, ih]
    simp [joinRelationship, attachDependent, updateFieldAt, updateTable]

/-- Where identifiers are distinct, the relationships of an import join all at once. -/
theorem foldl_join_eq {incoming : Import} (keyed : (p.joinTables incoming.tables now).Keyed) :
    incoming.relationships.foldl joinRelationship (p.joinTables incoming.tables now) =
      p.merged incoming now := by
  rw [foldl_join_others, foldl_join_tables keyed]
  rfl

theorem field?_merged {incoming : Import} :
    (p.merged incoming now).field? l = ((p.joinTables incoming.tables now).field? l).map
      ((p.joinTables incoming.tables now).joinedFirst incoming.relationships l) :=
  (joinedTable_fieldwise _ incoming.relationships).field? rfl l

theorem merged_keyed {incoming : Import} (keyed : (p.merged incoming now).Keyed) :
    (p.joinTables incoming.tables now).Keyed :=
  (joinedTable_fieldwise _ incoming.relationships).keyed_before rfl keyed

/-- An import leaves a consistent project exactly if its relationships could join all at once. -/
theorem merge_consistent_iff {incoming : Import} :
    (incoming.relationships.foldl joinRelationship (p.joinTables incoming.tables now)).Consistent ↔
      (p.merged incoming now).Consistent := by
  constructor
  · intro consistent
    have keyed := consistent.toKeyed.of_ids foldl_join_ids.symm
    exact foldl_join_eq keyed ▸ consistent
  · intro consistent
    exact foldl_join_eq (merged_keyed consistent.toKeyed) ▸ consistent

end Project
end LakeSchema
