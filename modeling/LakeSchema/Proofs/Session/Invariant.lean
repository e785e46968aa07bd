import LakeSchema.Proofs.Check.Consistency
import LakeSchema.Session.Command

/-!
# What holds in every session

`Sound` is the invariant of sessions: the project is consistent, and under the explicit policy every
foreign key has a recorded origin. `run_sound` shows that each command establishes it,
`afterAll_invariant` that no sequence of commands leaves it.
-/

namespace LakeSchema

/-! ### Recording origins -/

/-- A field whose origin is recorded if it is a foreign key. -/
def Field.Recorded (f : Field) : Prop :=
  f.reference.isSome → f.origin.isSome

def Table.Recorded (t : Table) : Prop :=
  ∀ f ∈ t.fields, f.Recorded

namespace Project

variable {p : Project}

theorem recordOrigin_keeps (p : Project) (f : Field) :
    (p.recordOrigin f).id = f.id ∧ (p.recordOrigin f).reference = f.reference ∧
      (p.recordOrigin f).isForeignKey = f.isForeignKey := by
  unfold recordOrigin
  split <;> simp

theorem recordOrigin_name (p : Project) (f : Field) : (p.recordOrigin f).name = f.name := by
  unfold recordOrigin
  split <;> rfl

theorem recordOrigin_isSome {f : Field} (refers : f.reference.isSome) :
    (p.recordOrigin f).origin.isSome := by
  obtain ⟨r, same⟩ := Option.isSome_iff_exists.mp refers
  unfold recordOrigin
  split
  · rfl
  · rename_i unrecorded
    cases recorded : f.origin with
    | none => exact (unrecorded r recorded same).elim
    | some _ => rfl

theorem recordOrigin_eq_self_iff {f : Field} : p.recordOrigin f = f ↔ f.Recorded := by
  constructor
  · intro same refers
    rw [← same]
    exact recordOrigin_isSome refers
  · intro recorded
    unfold recordOrigin
    split
    · rename_i reference none refers
      rw [Field.Recorded, refers, none] at recorded
      exact (Bool.false_ne_true (recorded rfl)).elim
    · rfl

theorem map_recordOrigin_eq_self_iff {t : Table} :
    { t with fields := t.fields.map p.recordOrigin } = t ↔ t.Recorded := by
  have each : t.fields.map p.recordOrigin = t.fields ↔ ∀ f ∈ t.fields, p.recordOrigin f = f := by
    simpa using List.map_inj_left (f := p.recordOrigin) (g := fun f => f) (l := t.fields)
  simp only [recordOrigin_eq_self_iff] at each
  rw [Table.Recorded, ← each]
  exact ⟨fun same => congrArg Table.fields same, fun same => by rw [same]⟩

theorem recordOrigins_fieldwise (p : Project) :
    Fieldwise (fun t => { t with fields := t.fields.map p.recordOrigin })
      (fun _ => p.recordOrigin) where
  id _ := rfl
  fields _ := rfl
  fieldId _ f := (p.recordOrigin_keeps f).1

theorem Consistent.recordOrigins (consistent : p.Consistent) : p.recordOrigins.Consistent :=
  consistent.fieldwise p.recordOrigins_fieldwise rfl
    (fun _ f _ => (p.recordOrigin_keeps f).2) rfl rfl rfl

theorem recordOrigins_recorded {t : Table} {f : Field} (member : t ∈ p.recordOrigins.tables)
    (present : f ∈ t.fields) (refers : f.reference.isSome) : f.origin.isSome := by
  obtain ⟨u, _, rfl⟩ := List.mem_map.mp member
  obtain ⟨g, _, rfl⟩ := List.mem_map.mp present
  rw [(p.recordOrigin_keeps g).2.1] at refers
  exact recordOrigin_isSome refers

end Project

namespace Session

variable {s next : Session} {now : Timestamp} {command : Command} {outcome : Outcome}

/-- The invariant of sessions. -/
structure Sound (s : Session) : Prop where
  consistent : s.project.Consistent
  origins : s.policy = .explicit → ∀ t ∈ s.project.tables, ∀ f ∈ t.fields,
    f.reference.isSome → f.origin.isSome

theorem Sound.recorded (sound : s.Sound) (explicit : s.policy = .explicit) {t : Table}
    (member : t ∈ s.project.tables) : t.Recorded :=
  sound.origins explicit t member

/-- How sessions begin. -/
inductive Start : Session → Prop where
  | empty (id name catalog schema : String) (now : Timestamp) :
      Start (.empty id name catalog schema now)
  | opened {policy : OriginPolicy} {p : Project} {s : Session}
      (accepted : open? policy p = .ok s) : Start s

/-- The sessions that commands lead to. -/
inductive Reachable : Session → Prop where
  | start {s : Session} (start : Start s) : Reachable s
  | after {s : Session} (now : Timestamp) (command : Command) (reachable : Reachable s) :
      Reachable (s.after now command)

/-! ### What an operation does -/

section Operation

variable {α β : Type} {shown : α → Outcome} {op : Session → Except SchemaError (α × Project)}
  {e : SchemaError}

theorem run_bind_ok {x : Operation α} {a : α} {s t : Session} (ran : x.run.run s = (.ok a, t))
    (f : α → Operation β) : (x >>= f).run.run s = (f a).run.run t := by
  change ExceptT.bindCont f (x.run.run s).1 (x.run.run s).2 = _
  rw [ran]
  rfl

theorem run_bind_error {x : Operation α} {s t : Session} (ran : x.run.run s = (.error e, t))
    (f : α → Operation β) : (x >>= f).run.run s = (.error e, t) := by
  change ExceptT.bindCont f (x.run.run s).1 (x.run.run s).2 = _
  rw [ran]
  rfl

theorem run_get (s : Session) : (get : Operation Session).run.run s = (.ok s, s) :=
  rfl

theorem run_lift (x : Except SchemaError α) (s : Session) :
    (liftM x : Operation α).run.run s = (x, s) :=
  rfl

/-- The session is set last of all, behind everything that can fail. -/
theorem run_apply (s : Session) (now : Timestamp) (shown : α → Outcome)
    (op : Session → Except SchemaError (α × Project)) :
    (apply now shown op).run.run s =
      match op s with
      | .error e => (.error e, s)
      | .ok (answer, candidate) =>
        match s.commit candidate now with
        | .error e => (.error e, s)
        | .ok next => (.ok (shown answer), next) := by
  rw [apply, run_bind_ok (run_get s)]
  cases op s with
  | error e => exact run_bind_error (run_lift (.error e) s) _
  | ok edited =>
    rw [run_bind_ok (run_lift (.ok edited) s)]
    obtain ⟨answer, candidate⟩ := edited
    dsimp only
    cases s.commit candidate now with
    | error e => exact run_bind_error (run_lift (.error e) s) _
    | ok next => exact run_bind_ok (run_lift (.ok next) s) _

theorem run_replace (s : Session) (p : Project) :
    (replace p).run.run s =
      match open? s.policy p with
      | .error e => (.error e, s)
      | .ok next => (.ok .done, next) := by
  rw [replace, run_bind_ok (run_get s)]
  cases open? s.policy p with
  | error e => exact run_bind_error (run_lift (.error e) s) _
  | ok next => exact run_bind_ok (run_lift (.ok next) s) _

theorem apply_eq_ok_iff :
    (apply now shown op).result s = .ok (outcome, next) ↔
      ∃ answer p, op s = .ok (answer, p) ∧ s.commit p now = .ok next ∧ outcome = shown answer := by
  rw [Operation.result, run_apply]
  cases op s with
  | error e => simp [Except.map]
  | ok edited =>
    obtain ⟨answer, p⟩ := edited
    cases committed : s.commit p now <;> simp [Except.map, committed, eq_comm, and_comm]

theorem apply_eq_error_iff :
    (apply now shown op).result s = .error e ↔
      op s = .error e ∨ ∃ answer p, op s = .ok (answer, p) ∧ s.commit p now = .error e := by
  rw [Operation.result, run_apply]
  cases op s with
  | error e => simp [Except.map]
  | ok edited =>
    obtain ⟨answer, p⟩ := edited
    cases committed : s.commit p now <;> simp [Except.map, committed]

theorem replace_eq_ok_iff {p : Project} :
    (replace p).result s = .ok (outcome, next) ↔ open? s.policy p = .ok next ∧ outcome = .done := by
  rw [Operation.result, run_replace]
  cases open? s.policy p <;> simp [Except.map, eq_comm, and_comm]

/-- Where an operation fails, it leaves the session as it was. -/
def Operation.Atomic (operation : Operation α) : Prop :=
  ∀ s e, operation.result s = .error e → (operation.run.run s).2 = s

theorem apply_atomic (now : Timestamp) (shown : α → Outcome)
    (op : Session → Except SchemaError (α × Project)) : (apply now shown op).Atomic := by
  intro s e failed
  rw [run_apply]
  rcases apply_eq_error_iff.mp failed with refused | ⟨answer, p, edited, rejected⟩
  · rw [refused]
  · simp only [edited, rejected]

theorem replace_atomic (p : Project) : (replace p).Atomic := by
  intro s e failed
  rw [Operation.result, run_replace] at failed
  rw [run_replace]
  cases opened : open? s.policy p with
  | error e => rfl
  | ok next =>
    rw [opened] at failed
    contradiction

theorem execute_atomic (now : Timestamp) (command : Command) : (execute now command).Atomic := by
  cases command with
  | reset p => exact replace_atomic p
  | _ => exact apply_atomic now _ _

theorem after_of_error (failed : s.run now command = .error e) : s.after now command = s :=
  execute_atomic now command s e failed

theorem after_of_ok (done : s.run now command = .ok (outcome, next)) :
    s.after now command = next := by
  rw [run, Operation.result] at done
  rw [after]
  generalize (execute now command).run.run s = left at done ⊢
  obtain ⟨_ | answer, next⟩ := left
  · contradiction
  · exact (Prod.mk.inj (Except.ok.inj done)).2

end Operation

/-! ### One command -/

theorem settled_sound {p : Project} (consistent : p.Consistent) (policy : OriginPolicy) :
    Sound ⟨settled policy p, policy⟩ := by
  cases policy with
  | explicit =>
    exact ⟨consistent.recordOrigins, fun _ _ member _ present =>
      Project.recordOrigins_recorded member present⟩
  | nameMatch => exact ⟨consistent, nofun⟩

theorem open?_eq_ok_iff {policy : OriginPolicy} {p : Project} :
    open? policy p = .ok s ↔ p.Consistent ∧ s = ⟨settled policy p, policy⟩ := by
  rw [← Project.inconsistencies_eq_nil_iff, open?]
  cases p.inconsistencies with
  | nil => simp [eq_comm]
  | cons error rest => simp

theorem commit_eq_ok_iff {p : Project} :
    s.commit p now = .ok next ↔
      p.Consistent ∧ next = { s with project := { settled s.policy p with updatedAt := now } } := by
  rw [← Project.inconsistencies_eq_nil_iff, commit]
  cases p.inconsistencies with
  | nil => simp [eq_comm]
  | cons error rest => simp

/-- The table as a commit leaves it. -/
def settledTable (policy : OriginPolicy) (p : Project) (t : Table) : Table :=
  match policy with
  | .explicit => { t with fields := t.fields.map p.recordOrigin }
  | .nameMatch => t

theorem settledTable_eq_self_iff {policy : OriginPolicy} {p : Project} {t : Table} :
    settledTable policy p t = t ↔ (policy = .explicit → t.Recorded) := by
  cases policy with
  | explicit => simp [settledTable, Project.map_recordOrigin_eq_self_iff]
  | nameMatch => simp [settledTable]

theorem settledTable_keeps (policy : OriginPolicy) (p : Project) (t : Table) :
    (settledTable policy p t).id = t.id ∧ (settledTable policy p t).name = t.name ∧
      (settledTable policy p t).updatedAt = t.updatedAt ∧
      (settledTable policy p t).fields.map (·.name) = t.fields.map (·.name) := by
  cases policy with
  | explicit =>
    refine ⟨rfl, rfl, rfl, ?_⟩
    rw [settledTable, List.map_map]
    exact List.map_congr_left fun f _ => p.recordOrigin_name f
  | nameMatch => exact ⟨rfl, rfl, rfl, rfl⟩

theorem settled_eq_self {policy : OriginPolicy} {p : Project}
    (recorded : policy = .explicit → ∀ t ∈ p.tables, t.Recorded) : settled policy p = p := by
  cases policy with
  | explicit =>
    have same : (p.tables.map fun t => { t with fields := t.fields.map p.recordOrigin }) = p.tables :=
      (List.map_congr_left fun t member =>
        Project.map_recordOrigin_eq_self_iff.mpr (recorded rfl t member)).trans (List.map_id' _)
    rw [settled, Project.recordOrigins, same]
  | nameMatch => rfl

/-- A consistent project with all origins recorded is accepted as it is. -/
theorem commit_recorded {p : Project} (consistent : p.Consistent)
    (recorded : s.policy = .explicit → ∀ t ∈ p.tables, t.Recorded) (now : Timestamp) :
    s.commit p now = .ok { s with project := { p with updatedAt := now } } :=
  commit_eq_ok_iff.mpr ⟨consistent, by rw [settled_eq_self recorded]⟩

theorem commit_tables {p : Project} (committed : s.commit p now = .ok next) :
    next.project.tables = p.tables.map (settledTable s.policy p) ∧ next.project.updatedAt = now := by
  obtain ⟨_, rfl⟩ := commit_eq_ok_iff.mp committed
  cases s.policy with
  | explicit => exact ⟨rfl, rfl⟩
  | nameMatch => exact ⟨(List.map_id p.tables).symm, rfl⟩

theorem commit_table? {p : Project} (committed : s.commit p now = .ok next) (id : String) :
    next.project.table? id = (p.table? id).map (settledTable s.policy p) := by
  have same : (fun t : Table => t.id == id) ∘ settledTable s.policy p = fun t => t.id == id := by
    funext t
    exact congrArg (· == id) (settledTable_keeps s.policy p t).1
  rw [Project.table?, (commit_tables committed).1, List.find?_map, same, Project.table?]

/-- What a commit keeps of an edited project besides its tables. -/
theorem commit_keeps {p : Project} (committed : s.commit p now = .ok next) :
    next.project.relationships = p.relationships ∧ next.project.metricViews = p.metricViews ∧
      next.project.traditionalViews = p.traditionalViews ∧
      next.project.metricRelationships = p.metricRelationships := by
  obtain ⟨_, rfl⟩ := commit_eq_ok_iff.mp committed
  cases s.policy <;> exact ⟨rfl, rfl, rfl, rfl⟩

theorem commit_sound {p : Project} (committed : s.commit p now = .ok next) :
    next.Sound ∧ next.policy = s.policy := by
  obtain ⟨consistent, rfl⟩ := commit_eq_ok_iff.mp committed
  obtain ⟨⟨keyed, references, relationships, endpoints, links⟩, origins⟩ :=
    settled_sound consistent s.policy
  exact ⟨⟨⟨⟨keyed.tables, keyed.fields⟩, references, relationships, endpoints, links⟩, origins⟩, rfl⟩

theorem open?_sound {policy : OriginPolicy} {p : Project} (accepted : open? policy p = .ok s) :
    s.Sound ∧ s.policy = policy := by
  obtain ⟨consistent, rfl⟩ := open?_eq_ok_iff.mp accepted
  exact ⟨settled_sound consistent policy, rfl⟩

theorem apply_sound {α : Type} {shown : α → Outcome} {op : Session → Except SchemaError (α × Project)}
    (done : (apply now shown op).result s = .ok (outcome, next)) :
    next.Sound ∧ next.policy = s.policy := by
  obtain ⟨_, _, _, committed, _⟩ := apply_eq_ok_iff.mp done
  exact commit_sound committed

/-- Whatever a command finds, the session that it leaves is sound. -/
theorem run_sound (done : s.run now command = .ok (outcome, next)) :
    next.Sound ∧ next.policy = s.policy := by
  cases command with
  | reset p => exact open?_sound (replace_eq_ok_iff.mp done).1
  | _ => exact apply_sound done

theorem after_sound (sound : s.Sound) (now : Timestamp) (command : Command) :
    (s.after now command).Sound ∧ (s.after now command).policy = s.policy := by
  cases result : s.run now command with
  | error e =>
    rw [after_of_error result]
    exact ⟨sound, rfl⟩
  | ok done =>
    rw [after_of_ok result]
    exact run_sound result

/-! ### All commands -/

theorem Start.sound (start : Start s) : s.Sound := by
  cases start with
  | empty id name catalog schema now =>
    refine ⟨Project.inconsistencies_eq_nil_iff.mp rfl, fun _ t member => ?_⟩
    simp [Session.empty, Project.empty] at member
  | opened accepted => exact (open?_sound accepted).1

theorem afterAll_sound (sound : s.Sound) (commands : List (Timestamp × Command)) :
    (s.afterAll commands).Sound ∧ (s.afterAll commands).policy = s.policy := by
  induction commands generalizing s with
  | nil => exact ⟨sound, rfl⟩
  | cons entry rest ih =>
    obtain ⟨soundAfter, policyAfter⟩ := after_sound sound entry.1 entry.2
    obtain ⟨soundEnd, policyEnd⟩ := ih soundAfter
    exact ⟨soundEnd, policyEnd.trans policyAfter⟩

/-- From every beginning, no sequence of commands breaks the invariant or changes the policy, and a
command that fails changes nothing. -/
theorem afterAll_invariant {start : Session} (begun : Start start)
    (commands : List (Timestamp × Command)) :
    (start.afterAll commands).Sound ∧ (start.afterAll commands).policy = start.policy ∧
      ∀ now command error, (start.afterAll commands).run now command = .error error →
        (start.afterAll commands).after now command = start.afterAll commands := by
  obtain ⟨sound, policy⟩ := afterAll_sound begun.sound commands
  exact ⟨sound, policy, fun now command error => after_of_error⟩

theorem keyChain_after_deletions :
    Start ⟨Project.keyChain.recordOrigins, .explicit⟩ ∧
      let s := afterAll ⟨Project.keyChain.recordOrigins, .explicit⟩
        [(Project.newYear, .deleteRelationship "RS"), (Project.newYear, .deleteTable "S")]
      s.Sound ∧ s.after Project.newYear (.deleteTable "S") = s := by
  have begun : Start ⟨Project.keyChain.recordOrigins, .explicit⟩ :=
    .opened (show open? .explicit .keyChain = .ok _ from rfl)
  obtain ⟨sound, _, failing⟩ := afterAll_invariant begun
    [(Project.newYear, .deleteRelationship "RS"), (Project.newYear, .deleteTable "S")]
  exact ⟨begun, sound, failing _ _ (.notFound .table "S") rfl⟩

theorem Reachable.sound (reachable : Reachable s) : s.Sound := by
  induction reachable with
  | start start => exact start.sound
  | after now command _ ih => exact (after_sound ih now command).1

/-! ### A small session -/

/-- A new table with nothing but a name and fields. -/
def newTable (id name : String) (fields : List Field) : TableSpec :=
  { id, name
    logicalName := none
    comment := none
    kind := .managed
    storageFormat := .delta
    storageLocation := none
    tags := .empty
    position := .initial
    fields }

/-- A session with one table, built from nothing. -/
def regionsOnly : Session :=
  (Session.empty "P" "shop" "main" "sales" Project.newYear).after Project.newYear
    (.addTable (newTable "R" "regions" [(Field.plain "K" "id" .int).asPrimaryKey]))

theorem regionsOnly_reachable : Reachable regionsOnly :=
  .after Project.newYear _ (.start (.empty "P" "shop" "main" "sales" Project.newYear))

end Session
end LakeSchema
