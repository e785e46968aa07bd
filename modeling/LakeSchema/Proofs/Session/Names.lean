import LakeSchema.Proofs.Edit.Import
import LakeSchema.Proofs.ForeignKey.Renaming
import LakeSchema.Proofs.Session.Provenance

/-!
# Names that are usable

Names are checked when tables, fields and views are added or renamed, but not those of a new field
list or of an import. `run_namesUsable_iff` says that all names of a project stay usable exactly if a
command brings no unusable name in this way, `empty_namesUsable_iff` what follows for the sessions
that start from nothing.
-/

namespace LakeSchema

def Table.NamesUsable (t : Table) : Prop :=
  Name.tableProblem? t.name = none ∧ ∀ f ∈ t.fields, Name.fieldProblem? f.name = none

structure Project.NamesUsable (p : Project) : Prop where
  tables : ∀ t ∈ p.tables, t.NamesUsable
  metricViews : ∀ v ∈ p.metricViews, Name.tableProblem? v.name = none
  traditionalViews : ∀ v ∈ p.traditionalViews, Name.tableProblem? v.name = none

/-- The names that the command brings without a check are usable. -/
def Command.GivesUsableNames : Command → Prop
  | .updateTable _ patch => ∀ f ∈ patch.fields.on [], Name.fieldProblem? f.name = none
  | .merge incoming => ∀ t ∈ incoming.tables, t.NamesUsable
  | _ => True

theorem Table.namesUsable_iff {t : Table} :
    t.NamesUsable ↔
      Name.tableProblem? t.names.1 = none ∧ ∀ name ∈ t.names.2, Name.fieldProblem? name = none := by
  rw [NamesUsable, names, List.forall_mem_map]

/-- What depends on the names of tables alone is the same for tables with the same names. -/
theorem forall_names_congr {good : Table → Prop} (judge : String × List String → Prop)
    {ts us : List Table} (judged : ∀ t, good t ↔ judge t.names)
    (same : us.map Table.names = ts.map Table.names) : (∀ u ∈ us, good u) ↔ ∀ t ∈ ts, good t := by
  have each (vs : List Table) : (∀ v ∈ vs, good v) ↔ ∀ names ∈ vs.map Table.names, judge names := by
    rw [List.forall_mem_map]
    exact forall₂_congr fun v _ => judged v
  rw [each, each, same]

theorem forall_namesUsable_congr {ts us : List Table} (same : us.map Table.names = ts.map Table.names) :
    (∀ u ∈ us, u.NamesUsable) ↔ ∀ t ∈ ts, t.NamesUsable :=
  forall_names_congr
    (fun names => Name.tableProblem? names.1 = none ∧ ∀ name ∈ names.2, Name.fieldProblem? name = none)
    (fun _ => Table.namesUsable_iff) same

namespace Project

variable {p q : Project} {given : List String} {now : Timestamp}

theorem Derived.namesUsable (derived : Derived given now p q) (usable : p.NamesUsable)
    (checked : ∀ name ∈ given, Name.fieldProblem? name = none) : q.NamesUsable where
  tables t member := by
    constructor
    · rcases derived.tableName member with acceptable | known
      · exact acceptable
      · obtain ⟨u, present, same⟩ := List.mem_map.mp known
        exact same ▸ (usable.tables u present).1
    · intro f held
      rcases derived.fieldName member held with acceptable | known
      · exact acceptable
      rcases List.mem_append.mp known with new | old
      · exact checked f.name new
      · obtain ⟨u, present, inside⟩ := List.mem_flatMap.mp old
        obtain ⟨g, there, same⟩ := List.mem_map.mp inside
        exact same ▸ (usable.tables u present).2 g there
  metricViews v member := by
    rcases derived.metricViews v member with old | ⟨_, acceptable | known⟩
    · exact usable.metricViews v old
    · exact acceptable
    · obtain ⟨w, present, same⟩ := List.mem_map.mp known
      exact same ▸ usable.metricViews w present
  traditionalViews v member := by
    rcases derived.traditionalViews v member with old | ⟨_, acceptable | known⟩
    · exact usable.traditionalViews v old
    · exact acceptable
    · obtain ⟨w, present, same⟩ := List.mem_map.mp known
      exact same ▸ usable.traditionalViews w present

end Project

namespace Session

variable {s next : Session} {now : Timestamp} {command : Command} {outcome : Outcome}

/-! ### One command -/

theorem commit_names {q : Project} (committed : s.commit q now = .ok next) :
    next.project.tables.map Table.names = q.tables.map Table.names := by
  rw [(commit_tables committed).1, List.map_map]
  refine List.map_congr_left fun t _ => ?_
  obtain ⟨_, name, _, fields⟩ := settledTable_keeps s.policy q t
  exact Prod.ext name fields

theorem merge_namesUsable_iff {incoming : Import} (usable : s.project.NamesUsable)
    (done : s.run now (.merge incoming) = .ok (outcome, next)) :
    next.project.NamesUsable ↔ ∀ t ∈ incoming.tables, t.NamesUsable := by
  obtain ⟨answer, q, merged, committed, _⟩ := apply_eq_ok_iff.mp done
  obtain ⟨_, metricViews, traditionalViews, _⟩ := commit_keeps committed
  have names := commit_names committed
  obtain ⟨_, rfl⟩ := Project.merge_effect merged
  rw [Project.foldl_join_names] at names
  rw [Project.foldl_join_views.1] at metricViews
  rw [Project.foldl_join_views.2] at traditionalViews
  have all : (∀ u ∈ next.project.tables, u.NamesUsable) ↔
      (∀ t ∈ s.project.tables, t.NamesUsable) ∧ ∀ t ∈ incoming.tables, t.NamesUsable := by
    rw [forall_namesUsable_congr names, Project.joinTables, List.forall_mem_append,
      List.forall_mem_map]
    rfl
  constructor
  · exact fun after => (all.mp after.tables).2
  · exact fun others => ⟨all.mpr ⟨usable.tables, others⟩, metricViews ▸ usable.metricViews,
      traditionalViews ▸ usable.traditionalViews⟩

/-- The names of a new field list end up in the project. -/
theorem updateTable_given {table : String} {patch : TablePatch}
    (done : s.run now (.updateTable table patch) = .ok (outcome, next))
    (usable : next.project.NamesUsable) : (Command.updateTable table patch).GivesUsableNames := by
  obtain ⟨answer, q, patched, committed, _⟩ := apply_eq_ok_iff.mp done
  obtain ⟨consistent, _⟩ := commit_eq_ok_iff.mp committed
  obtain ⟨t, _, _, _, located, _⟩ := Project.patchTable_effect patched
  have before : ∀ u ∈ q.tables, u.NamesUsable :=
    (forall_namesUsable_congr (commit_names committed)).mp usable.tables
  intro f listed
  have given : f ∈ patch.fields.on t.fields := by
    cases asked : patch.fields with
    | keep =>
      rw [asked] at listed
      exact (List.not_mem_nil listed).elim
    | set fields =>
      rw [asked] at listed
      exact listed
  obtain ⟨g, found, same⟩ := Option.map_eq_some_iff.mp
    (Project.patchTable_names consistent.toKeyed located patched given)
  obtain ⟨u, member, _, present, _⟩ := (Project.field?_eq_some_iff consistent.toKeyed).mp found
  exact same ▸ (before u member).2 g present

/-- A command keeps all names usable exactly if the names that it brings without a check are. -/
theorem run_namesUsable_iff (sound : s.Sound) (usable : s.project.NamesUsable)
    (editing : ∀ p, command ≠ .reset p) (done : s.run now command = .ok (outcome, next)) :
    next.project.NamesUsable ↔ command.GivesUsableNames := by
  have derived (edits : command.edits)
      (checked : ∀ name ∈ command.given, Name.fieldProblem? name = none) :
      next.project.NamesUsable :=
    (run_derived sound edits done).namesUsable usable checked
  cases command with
  | updateTable table patch =>
    refine ⟨updateTable_given done, fun given => derived rfl ?_⟩
    exact List.forall_mem_map.mpr given
  | merge incoming => exact merge_namesUsable_iff usable done
  | reset p => exact (editing p rfl).elim
  | _ => exact iff_of_true (derived rfl (List.forall_mem_nil _)) trivial

/-! ### Runs -/

/-- No command of a run that succeeds brings an unusable name. -/
def GivenUsable : Session → List (Timestamp × Command) → Prop
  | _, [] => True
  | s, (now, command) :: rest =>
    (∀ outcome next, s.run now command = .ok (outcome, next) → command.GivesUsableNames) ∧
      GivenUsable (s.after now command) rest

theorem after_namesUsable_iff (now : Timestamp) (sound : s.Sound) (usable : s.project.NamesUsable)
    (editing : ∀ p, command ≠ .reset p) :
    (s.after now command).project.NamesUsable ↔
      ∀ outcome next, s.run now command = .ok (outcome, next) → command.GivesUsableNames := by
  cases done : s.run now command with
  | error e =>
    rw [after_of_error done]
    exact iff_of_true usable fun _ _ other => by simp at other
  | ok result =>
    obtain ⟨outcome, next⟩ := result
    rw [after_of_ok done]
    refine (run_namesUsable_iff sound usable editing done).trans ?_
    exact ⟨fun given _ _ _ => given, fun given => given outcome next rfl⟩

/-- All names are usable at every point of a run exactly if no command brings an unusable one. -/
theorem afterAll_namesUsable_iff {commands : List (Timestamp × Command)} (sound : s.Sound)
    (usable : s.project.NamesUsable) (editing : ∀ entry ∈ commands, ∀ p, entry.2 ≠ .reset p) :
    (∀ before after, commands = before ++ after → (s.afterAll before).project.NamesUsable) ↔
      s.GivenUsable commands := by
  -- The session after the first command is sound again, and usable by `first`.
  induction commands generalizing s with
  | nil =>
    refine iff_of_true (fun before after split => ?_) trivial
    rw [(List.append_eq_nil_iff.mp split.symm).1]
    exact usable
  | cons entry rest ih =>
    obtain ⟨now, command⟩ := entry
    rw [List.forall_mem_cons] at editing
    have first := after_namesUsable_iff now sound usable editing.1
    have soundAfter := (after_sound sound now command).1
    constructor
    · intro always
      have after := always [(now, command)] rest rfl
      refine ⟨first.mp after, (ih soundAfter after editing.2).mp fun before others split => ?_⟩
      exact always ((now, command) :: before) others (by rw [split]; rfl)
    · rintro ⟨given, later⟩ before others split
      cases before with
      | nil => exact usable
      | cons entry before =>
        obtain ⟨rfl, shorter⟩ := List.cons.inj split
        exact (ih soundAfter (first.mpr given) editing.2).mpr later before others shorter

/-- In a session that starts from nothing all names are usable throughout exactly if no new field list
and no import brings an unusable one. -/
theorem empty_namesUsable_iff (id name catalog schema : String) (start : Timestamp)
    {commands : List (Timestamp × Command)} (editing : ∀ entry ∈ commands, ∀ p, entry.2 ≠ .reset p) :
    (∀ before after, commands = before ++ after →
      ((empty id name catalog schema start).afterAll before).project.NamesUsable) ↔
      (empty id name catalog schema start).GivenUsable commands :=
  afterAll_namesUsable_iff (Start.empty id name catalog schema start).sound
    ⟨List.forall_mem_nil _, List.forall_mem_nil _, List.forall_mem_nil _⟩ editing

/-- Regions are added, then their key is replaced by one of the given name. -/
def rekeyed (name : String) : List (Timestamp × Command) :=
  [ (Project.newYear,
      .addTable (newTable "R" "regions" [(Field.plain "K" "id" .int).asPrimaryKey])),
    (Project.newYear, .updateTable "R" (.ofFields [(Field.plain "K" name .int).asPrimaryKey])) ]

/-- A key without a name is refused in a new table, not in a new field list. -/
theorem rekeyed_empty_unusable :
    (∀ entry ∈ rekeyed "", ∀ p, entry.2 ≠ .reset p) ∧
      ¬ ((empty "P" "shop" "main" "sales" Project.newYear).afterAll (rekeyed "")).project.NamesUsable := by
  refine ⟨by simp [rekeyed], fun usable => ?_⟩
  have named := (usable.tables _ (List.mem_singleton_self _)).2 _ (List.mem_singleton_self _)
  exact absurd named (by decide)

theorem rekeyed_code_usable :
    (∀ entry ∈ rekeyed "code", ∀ p, entry.2 ≠ .reset p) ∧
      ∀ before after, rekeyed "code" = before ++ after →
        ((empty "P" "shop" "main" "sales" Project.newYear).afterAll before).project.NamesUsable := by
  have editing : ∀ entry ∈ rekeyed "code", ∀ p, entry.2 ≠ .reset p := by simp [rekeyed]
  refine ⟨editing, (empty_namesUsable_iff _ _ _ _ _ editing).mpr ?_⟩
  refine ⟨fun _ _ _ => trivial, fun _ _ _ => ?_, trivial⟩
  exact List.forall_mem_singleton.mpr (by decide)

end Session
end LakeSchema
