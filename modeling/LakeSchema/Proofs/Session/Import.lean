import LakeSchema.Proofs.Edit.Import
import LakeSchema.Proofs.Session.ChangeStamps
import LakeSchema.Proofs.Session.OriginStability

/-!
# Imports in a session

An import succeeds exactly if no identifier and no name of it is taken (`Project.Admits`) and the
project is consistent with it. `Imported` says what it leaves: imported tables and relationships come
last, and the fields that imported relationships depend on have become foreign keys (`run_merge`).
-/

namespace LakeSchema

/-- What an import with relationships `rs` makes of a field `f` at `l`, given the names of keys. -/
inductive Field.Imported (policy : OriginPolicy) (rs : List Relationship)
    (name? : Location → Option String) (l : Location) (f g : Field) : Prop where
  /-- The field is no foreign key, and the first relationship that depends on it makes it one. -/
  | gained (r : Relationship) (origin : KeyOrigin) (plain : f.reference = none)
      (first : rs.find? (·.dependent == l) = some r)
      (same : g =
        { f with
          isForeignKey := true
          reference := some { Reference.ofTarget r.source with constraintName := r.constraintName }
          origin := some origin })
      (byName : origin = .linked ↔ name? r.source = some f.name)
  /-- The field is a foreign key without an origin, which is recorded. -/
  | recorded (origin : KeyOrigin) (explicit : policy = .explicit) (refers : f.reference.isSome)
      (blank : f.origin = none) (same : g = { f with origin := some origin })
  | kept (free : f.reference = none → ∀ r ∈ rs, r.dependent ≠ l) (same : g = f)

/-- A table keeps all but its fields, which an import may make foreign keys. -/
structure Table.Imported (policy : OriginPolicy) (rs : List Relationship)
    (name? : Location → Option String) (t u : Table) : Prop where
  attributes : u = { t with fields := u.fields }
  fields : List.Forall₂ (fun f g => f.Imported policy rs name? ⟨t.id, f.id⟩ g) t.fields u.fields

/-! ### Fields -/

section Fields

variable {policy : OriginPolicy} {rs : List Relationship} {name? : Location → Option String}
  {l : Location} {f g : Field} {p : Project}

theorem Project.joinedFirst_imported (p : Project) (rs : List Relationship) (l : Location)
    (f : Field) :
    f.Imported .nameMatch rs (fun k => (p.field? k).map (·.name)) l (p.joinedFirst rs l f) := by
  unfold joinedFirst
  split
  · rename_i r first
    cases refers : f.reference with
    | none =>
      have attached : p.joined r f =
          f.attach { Reference.ofTarget r.source with constraintName := r.constraintName }
            (f.originByName ((p.field? r.source).map (·.name))) := by
        rw [joined, refers]
      refine .gained r _ refers first attached ?_
      unfold Field.originByName
      split
      · rename_i named
        exact iff_of_true rfl named
      · rename_i unnamed
        exact iff_of_false nofun unnamed
    | some reference =>
      have foreign : f.reference ≠ none := by simp [refers]
      exact .kept (fun plain => (foreign plain).elim) (joined_of_refers foreign)
  · rename_i absent
    refine .kept (fun _ r member same => ?_) rfl
    exact List.find?_eq_none.mp absent r member (beq_iff_eq.mpr same)

/-- Recording origins changes no field that an import makes a foreign key. -/
theorem Field.Imported.recordOrigin (imported : f.Imported .nameMatch rs name? l g) (p : Project) :
    f.Imported .explicit rs name? l (p.recordOrigin g) := by
  cases imported with
  | gained r origin plain first same byName =>
    have settled : p.recordOrigin g = g := by
      rw [Project.recordOrigin_eq_self_iff, same]
      exact fun _ => rfl
    rw [settled]
    exact .gained r origin plain first same byName
  | recorded origin explicit _ _ _ => contradiction
  | kept free same =>
    subst same
    unfold Project.recordOrigin
    split
    · rename_i reference blank refers
      exact .recorded _ rfl (by rw [refers]; rfl) blank rfl
    · exact .kept free rfl

theorem Session.settledTable_imported (policy : OriginPolicy) (p q : Project)
    (rs : List Relationship) (t : Table) :
    t.Imported policy rs (fun k => (q.field? k).map (·.name))
      (settledTable policy p (q.joinedTable rs t)) := by
  cases policy with
  | explicit =>
    refine ⟨rfl, ?_⟩
    rw [settledTable, Project.joinedTable, List.map_map, List.forall₂_map_right_iff,
      List.forall₂_same]
    exact fun f _ => (q.joinedFirst_imported rs _ f).recordOrigin p
  | nameMatch =>
    refine ⟨rfl, ?_⟩
    rw [settledTable, Project.joinedTable, List.forall₂_map_right_iff, List.forall₂_same]
    exact fun f _ => q.joinedFirst_imported rs _ f

end Fields

namespace Session

variable {s next : Session} {incoming : Import} {now : Timestamp} {outcome : Outcome}

/-- What an import leaves of a session, and its answer. -/
structure Imported (s : Session) (incoming : Import) (now : Timestamp) (outcome : Outcome)
    (next : Session) : Prop where
  answer : outcome =
    .summary ⟨incoming.tables.map (·.id), incoming.relationships.map (·.id)⟩
  tables : List.Forall₂
    (Table.Imported s.policy incoming.relationships
      fun k => (next.project.field? k).map (·.name))
    (s.project.tables ++ incoming.tables.map (·.touch now)) next.project.tables
  relationships : next.project.relationships =
    s.project.relationships ++ incoming.relationships
  foreign : ∀ r ∈ incoming.relationships, ∃ f,
    next.project.field? r.dependent = some f ∧ f.reference.isSome
  others : next =
    { s with
      project :=
        { s.project with
          tables := next.project.tables
          relationships := next.project.relationships
          updatedAt := now } }

/-- The project that an import leads to is that with all its relationships joined at once. -/
theorem run_merge_eq_ok_iff :
    s.run now (.merge incoming) = .ok (outcome, next) ↔
      s.project.Admits incoming ∧
        s.commit (s.project.merged incoming now) now = .ok next ∧
        outcome = .summary ⟨incoming.tables.map (·.id), incoming.relationships.map (·.id)⟩ := by
  rw [run, execute, apply_eq_ok_iff]
  simp only [Project.merge_eq_ok_iff, commit_eq_ok_iff]
  constructor
  · rintro ⟨_, _, ⟨admits, rfl, rfl⟩, ⟨consistent, left⟩, rfl⟩
    have joined := Project.merge_consistent_iff.mp consistent
    rw [Project.foldl_join_eq (Project.merged_keyed joined.toKeyed)] at left
    exact ⟨admits, ⟨joined, left⟩, rfl⟩
  · rintro ⟨admits, ⟨joined, left⟩, rfl⟩
    have consistent := Project.merge_consistent_iff.mpr joined
    rw [← Project.foldl_join_eq (Project.merged_keyed joined.toKeyed)] at left
    exact ⟨_, _, ⟨admits, rfl, rfl⟩, ⟨consistent, left⟩, rfl⟩

/-- What recording an origin keeps of a field, a commit keeps of it. -/
theorem commit_field?_map {α : Type} {p : Project} {view : Field → α}
    (committed : s.commit p now = .ok next) (keeps : ∀ f, view (p.recordOrigin f) = view f)
    (l : Location) : (next.project.field? l).map view = (p.field? l).map view := by
  rw [commit_field? committed]
  unfold settled
  split
  · rw [Project.field?_recordOrigins, Option.map_map]
    congr 1
    funext f
    exact keeps f
  · rfl

theorem commit_merged_imported (committed : s.commit (s.project.merged incoming now) now = .ok next) :
    s.Imported incoming now
      (.summary ⟨incoming.tables.map (·.id), incoming.relationships.map (·.id)⟩) next := by
  obtain ⟨tables, _⟩ := commit_tables committed
  obtain ⟨relationships, _⟩ := commit_keeps committed
  obtain ⟨consistent, left⟩ := commit_eq_ok_iff.mp committed
  have names : (fun l => (next.project.field? l).map (·.name)) =
      fun l => ((s.project.joinTables incoming.tables now).field? l).map (·.name) := by
    funext l
    rw [commit_field?_map committed (Project.recordOrigin_name _), Project.field?_merged,
      Option.map_map]
    congr 1
    funext f
    exact (Project.joinedFirst_keeps _ _ l f).2
  refine ⟨rfl, ?_, relationships, fun r member => ?_, ?_⟩
  · rw [names, tables, Project.merged, List.map_map, List.forall₂_map_right_iff]
    exact List.forall₂_same.mpr fun t _ => settledTable_imported s.policy _ _ _ t
  · have listed : r ∈ (s.project.merged incoming now).relationships :=
      List.mem_append_right _ member
    obtain ⟨f, found⟩ := Option.isSome_iff_exists.mp (consistent.endpoint listed).2.2
    have kept := commit_field?_map committed
      (fun f => (Project.recordOrigin_keeps _ f).2.1) r.dependent
    rw [found, Option.map_some] at kept
    obtain ⟨g, there, same⟩ := Option.map_eq_some_iff.mp kept
    refine ⟨g, there, ?_⟩
    rw [same]
    rw [Project.field?_merged] at found
    obtain ⟨before, _, rfl⟩ := Option.map_eq_some_iff.mp found
    exact Option.isSome_iff_ne_none.mpr (Project.joinedFirst_refers _ member before)
  · rw [left]
    cases s.policy <;> rfl

/-- An import succeeds exactly if none of its identifiers and names is taken and the project is
consistent with it. Otherwise it changes nothing. -/
theorem run_merge (s : Session) (incoming : Import) (now : Timestamp) :
    ((∃ outcome next, s.run now (.merge incoming) = .ok (outcome, next)) ↔
      s.project.Admits incoming ∧ (s.project.merged incoming now).inconsistencies = []) ∧
    (∀ outcome next, s.run now (.merge incoming) = .ok (outcome, next) →
      s.Imported incoming now outcome next) ∧
    ∀ e, s.run now (.merge incoming) = .error e → s.after now (.merge incoming) = s := by
  simp only [run_merge_eq_ok_iff]
  refine ⟨?_, ?_, fun e failed => ?_⟩
  · simp only [commit_eq_ok_iff, Project.inconsistencies_eq_nil_iff]
    constructor
    · rintro ⟨_, _, admits, ⟨consistent, _⟩, _⟩
      exact ⟨admits, consistent⟩
    · rintro ⟨admits, consistent⟩
      exact ⟨_, _, admits, ⟨consistent, rfl⟩, rfl⟩
  · rintro _ next ⟨_, committed, rfl⟩
    exact commit_merged_imported committed
  · exact after_of_error failed

/-- Sales that refer to stores and to regions, and regions for the stores of the session. -/
def salesToStores : Import :=
  ⟨[{ Table.plain "T" "sales" Project.newYear with
      fields := [.plain "N" "id" .int, .plain "Q" "region" .int] }],
    [.between "ST" ⟨"S", "L"⟩ ⟨"T", "N"⟩ Project.newYear,
      .between "RT" ⟨"R", "K"⟩ ⟨"T", "Q"⟩ Project.newYear,
      .between "RS" ⟨"R", "K"⟩ ⟨"S", "L"⟩ Project.newYear]⟩

theorem plainStores_import :
    Reachable plainStores ∧ plainStores.project.Admits salesToStores ∧
      (∃ outcome next, plainStores.run noon (.merge salesToStores) = .ok (outcome, next) ∧
        plainStores.Imported salesToStores noon outcome next ∧
        (next.project.field? ⟨"T", "N"⟩).map (·.origin) = some (some .linked) ∧
        (next.project.field? ⟨"T", "Q"⟩).map (·.origin) = some (some .independent)) ∧
      plainStores.after noon (.merge ⟨[.plain "U" "Stores" noon], []⟩) = plainStores := by
  obtain ⟨succeeds, leaves, _⟩ := run_merge plainStores salesToStores noon
  obtain ⟨_, _, fails⟩ := run_merge plainStores ⟨[.plain "U" "Stores" noon], []⟩ noon
  obtain ⟨outcome, next, done, linked, independent⟩ : ∃ outcome next,
      plainStores.run noon (.merge salesToStores) = .ok (outcome, next) ∧
        (next.project.field? ⟨"T", "N"⟩).map (·.origin) = some (some .linked) ∧
        (next.project.field? ⟨"T", "Q"⟩).map (·.origin) = some (some .independent) :=
    ⟨_, _, rfl, rfl, rfl⟩
  obtain ⟨admits, _⟩ := succeeds.mp ⟨outcome, next, done⟩
  exact ⟨plainStores_reachable, admits,
    ⟨outcome, next, done, leaves outcome next done, linked, independent⟩, fails _ rfl⟩

end Session
end LakeSchema
