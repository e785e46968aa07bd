import LakeSchema.Proofs.ForeignKey.Heir
import LakeSchema.Proofs.Session.Invariant

/-!
# Recorded origins are stable

Renames of a foreign key or of its key never change its recorded origin. `run_inherited` says so of
one command, `Reachable.origin_stable` of all runs in which the foreign key keeps its key and is not
written anew, together with what becomes of its name when the key is renamed.
-/

namespace LakeSchema

variable {s next : Session} {command : Command} {outcome : Outcome} {now : Timestamp}
  {p : Project} {policy : OriginPolicy} {l k : Location} {f g : Field}

/-- The change of a name alone. -/
def FieldPatch.rename (name : String) : FieldPatch :=
  { name := .set name
    dataType := .keep
    typeParameters := .keep
    nullable := .keep
    defaultValue := .keep
    comment := .keep
    logicalName := .keep
    tags := .keep
    isPrimaryKey := .keep }

/-- The command links the field at a location or writes another field in its place. -/
def Command.Rewrites (p : Project) (l : Location) : Command → Prop
  | .updateTable table patch => ∃ fields, patch.fields = .set fields ∧ l.table = table ∧
      fields.find? (·.id == l.field) ≠ p.field? l
  | .addRelationship spec => spec.dependent = l
  | .connect connection => l.table = connection.table ∧ p.Uses connection l.field
  | .reset _ => True
  | _ => False

/-- The name of a foreign key once its key is renamed. -/
def KeyOrigin.rename (own key : String) : KeyOrigin → String
  | .linked => key
  | .independent => own

theorem Field.follow_name {origin : KeyOrigin} {prior : Field} (recorded : f.origin = some origin) :
    (f.follow .explicit prior g).name = origin.rename f.name g.name := by
  unfold follow originUnder
  rw [recorded]
  cases origin <;> rfl

namespace Project

/-- An origin that is recorded is not recorded again. -/
theorem recordOrigin_heir (recorded : f.origin.isSome) (heir : f.Heir g) :
    f.Heir (p.recordOrigin g) := by
  intro refers
  rw [(p.recordOrigin_keeps g).2.1] at refers
  obtain ⟨before, same⟩ := heir refers
  refine ⟨before, ?_⟩
  unfold recordOrigin
  split
  · rename_i none _
    rw [← same, none] at recorded
    contradiction
  · exact same

theorem field?_recordOrigins : p.recordOrigins.field? l = (p.field? l).map p.recordOrigin :=
  p.recordOrigins_fieldwise.field? rfl l

end Project

namespace Session

/-! ### One command -/

theorem commit_field? (committed : s.commit p now = .ok next) :
    next.project.field? l = (settled s.policy p).field? l := by
  obtain ⟨_, rfl⟩ := commit_eq_ok_iff.mp committed
  exact Project.field?_of_tables rfl l

theorem apply_inherited {α : Type} {shown : α → Outcome}
    {op : Session → Except SchemaError (α × Project)} (recorded : f.origin.isSome)
    (inherited : ∀ answer q, op s = .ok (answer, q) → f.Inherited (q.field? l))
    (done : (apply now shown op).result s = .ok (outcome, next)) :
    f.Inherited (next.project.field? l) := by
  obtain ⟨answer, q, result, committed, _⟩ := apply_eq_ok_iff.mp done
  rw [commit_field? committed]
  unfold settled
  split
  · intro g found
    rw [Project.field?_recordOrigins] at found
    obtain ⟨h, before, rfl⟩ := Option.map_eq_some_iff.mp found
    exact Project.recordOrigin_heir recorded (inherited answer q result h before)
  · exact inherited answer q result

/-- A command that does not rewrite a foreign key leaves its recorded origin as long as it refers to
anything. -/
theorem run_inherited (sound : s.Sound) (found : s.project.field? l = some f)
    (refers : f.reference ≠ none) (recorded : f.origin.isSome)
    (kept : ¬ command.Rewrites s.project l) (done : s.run now command = .ok (outcome, next)) :
    f.Inherited (next.project.field? l) := by
  have unmoved {α : Type} {shown : α → Outcome} {op : Session → Except SchemaError (α × Project)}
      (tables : ∀ {answer q}, op s = .ok (answer, q) → q.tables = s.project.tables)
      (done : (apply now shown op).result s = .ok (outcome, next)) :
      f.Inherited (next.project.field? l) :=
    apply_inherited recorded (fun _ _ result => Project.inherited_of_tables found (tables result))
      done
  have keyed := sound.consistent.toKeyed
  cases command with
  | addTable spec =>
    exact apply_inherited recorded (fun _ _ => Project.addTable_inherited found) done
  | updateTable table patch =>
    refine apply_inherited recorded (fun _ _ => Project.updateTable_inherited found ?_) done
    intro fields given inside
    by_contra other
    exact kept ⟨fields, given, inside, other⟩
  | deleteTable table =>
    exact apply_inherited recorded
      (fun _ _ => Project.deleteTable_inherited sound.consistent found) done
  | addField table new =>
    exact apply_inherited recorded (fun _ _ => Project.addField_inherited keyed found) done
  | updateField table id patch =>
    exact apply_inherited recorded (fun _ _ => Project.updateField_inherited found) done
  | deleteField table id =>
    exact apply_inherited recorded (fun _ _ => Project.deleteField_inherited keyed found) done
  | addRelationship spec =>
    exact apply_inherited recorded (fun _ _ => Project.link_inherited found kept) done
  | updateRelationship id patch =>
    exact apply_inherited recorded (fun _ _ => Project.updateRelationship_inherited found) done
  | deleteRelationship id =>
    exact apply_inherited recorded (fun _ _ => Project.deleteRelationship_inherited found) done
  | connect connection =>
    refine apply_inherited recorded (fun _ _ => Project.connect_inherited found ?_) done
    exact fun inside used => kept ⟨inside, used⟩
  | merge incoming =>
    exact apply_inherited recorded (fun _ _ => Project.merge_inherited found refers) done
  | removeLine id =>
    exact unmoved (fun result => by rw [Project.removeLine_effect result]) done
  | addMetricView v =>
    exact unmoved (fun result => by rw [(Project.addMetricView_effect result).2.2.2]) done
  | updateMetricView id patch =>
    refine unmoved (fun result => ?_) done
    obtain ⟨_, _, _, _, rfl⟩ := Project.updateMetricView_effect result
    rfl
  | deleteMetricView id =>
    exact unmoved (fun result => by rw [Project.deleteMetricView_effect result]) done
  | addTraditionalView v =>
    refine unmoved (fun result => ?_) done
    obtain ⟨_, _, _, _, _, rfl⟩ := Project.addTraditionalView_effect result
    rfl
  | updateTraditionalView id patch =>
    refine unmoved (fun result => ?_) done
    obtain ⟨_, _, _, _, _, _, rfl⟩ := Project.updateTraditionalView_effect result
    rfl
  | deleteTraditionalView id =>
    exact unmoved (fun result => by rw [Project.deleteTraditionalView_effect result]) done
  | addMetricRelationship id table view =>
    exact unmoved (fun result => by rw [(Project.addMetricRelationship_effect result).2]) done
  | deleteMetricRelationship id =>
    exact unmoved (fun result => by rw [Project.deleteMetricRelationship_effect result]) done
  | reset project => exact (kept trivial).elim

/-! ### Runs -/

/-- The field at `l` is a foreign key that refers to the one at `k`. -/
def Refers (s : Session) (l k : Location) : Prop :=
  ∃ f reference, s.project.field? l = some f ∧ f.reference = some reference ∧ reference.target = k

theorem refers_iff : s.Refers l k ↔ (s.project.field? l).any (·.refersTo k) := by
  simp [Refers, Option.any_eq_true, Field.refersTo]

/-- Throughout a run the field at `l` refers to the one at `k`, and no command that succeeds rewrites
it. -/
def Undisturbed (l k : Location) : Session → List (Timestamp × Command) → Prop
  | s, [] => s.Refers l k
  | s, (now, command) :: rest => s.Refers l k ∧
      (∀ outcome next, s.run now command = .ok (outcome, next) →
        ¬ command.Rewrites s.project l) ∧
      Undisturbed l k (s.after now command) rest

theorem Undisturbed.refers {commands : List (Timestamp × Command)}
    (undisturbed : Undisturbed l k s commands) : s.Refers l k := by
  cases commands with
  | nil => exact undisturbed
  | cons entry rest => exact undisturbed.1

theorem Refers.recorded (refers : s.Refers l k) (sound : s.Sound) (explicit : s.policy = .explicit) :
    ∃ f origin, s.project.field? l = some f ∧ f.refersTo k ∧ f.origin = some origin := by
  obtain ⟨f, reference, found, held, target⟩ := refers
  obtain ⟨t, member, _, present, _⟩ :=
    (Project.field?_eq_some_iff sound.consistent.toKeyed).mp found
  have recorded := sound.origins explicit t member f present (by rw [held]; rfl)
  obtain ⟨origin, same⟩ := Option.isSome_iff_exists.mp recorded
  exact ⟨f, origin, found, by simp [Field.refersTo, held, target], same⟩

/-- A foreign key with this origin is at the location. -/
def HasOrigin (s : Session) (l : Location) (origin : KeyOrigin) : Prop :=
  ∃ f, s.project.field? l = some f ∧ f.origin = some origin

theorem after_hasOrigin {origin : KeyOrigin} (sound : s.Sound) (refers : s.Refers l k)
    (kept : ∀ outcome next, s.run now command = .ok (outcome, next) →
      ¬ command.Rewrites s.project l)
    (later : (s.after now command).Refers l k) (recorded : s.HasOrigin l origin) :
    (s.after now command).HasOrigin l origin := by
  cases result : s.run now command with
  | error e =>
    rw [after_of_error result]
    exact recorded
  | ok done =>
    obtain ⟨outcome, next⟩ := done
    rw [after_of_ok result] at later ⊢
    obtain ⟨f, reference, found, held, _⟩ := refers
    obtain ⟨g, there, same⟩ := recorded
    obtain rfl : f = g := Option.some.inj (found.symm.trans there)
    obtain ⟨h, _, reached, still, _⟩ := later
    have heir :=
      run_inherited sound found (by simp [held]) (by simp [same]) (kept _ _ result) result
    exact ⟨h, reached, (heir h reached (by simp [still])).2.trans same⟩

/-- The origin at the beginning of a run is the origin at every point of it. -/
theorem Undisturbed.hasOrigin {origin : KeyOrigin} (sound : s.Sound)
    {before after : List (Timestamp × Command)} (undisturbed : Undisturbed l k s (before ++ after))
    (recorded : s.HasOrigin l origin) :
    (s.afterAll before).Sound ∧ Undisturbed l k (s.afterAll before) after ∧
      (s.afterAll before).HasOrigin l origin := by
  induction before generalizing s with
  | nil => exact ⟨sound, undisturbed, recorded⟩
  | cons entry rest ih =>
    obtain ⟨refers, kept, later⟩ := undisturbed
    exact ih (after_sound sound entry.1 entry.2).1 later
      (after_hasOrigin sound refers kept later.refers recorded)

/-- When a primary key is renamed, a foreign key on it takes the name if it is linked, and keeps its
own if it is independent. -/
theorem run_rename {origin : KeyOrigin} {patch : FieldPatch} {key : Field} (sound : s.Sound)
    (explicit : s.policy = .explicit) (apart : l ≠ k) (refers : s.Refers l k)
    (recorded : s.HasOrigin l origin) (found : s.project.field? k = some key)
    (primary : (patch.apply key).isPrimaryKey) (renamed : (patch.apply key).name ≠ key.name)
    (done : s.run now (.updateField k.table k.field patch) = .ok (outcome, next)) :
    ∃ f g, s.project.field? l = some f ∧ next.project.field? l = some g ∧
      g.name = origin.rename f.name (patch.apply key).name := by
  obtain ⟨f, reference, there, held, target⟩ := refers
  obtain ⟨_, again, same⟩ := recorded
  obtain rfl := Option.some.inj (there.symm.trans again)
  obtain ⟨_, q, edited, committed, _⟩ := apply_eq_ok_iff.mp done
  have written := Project.field?_updateField_primary (l := l) sound.consistent.toKeyed found primary
    edited
  have changed : key.shapeChanged (patch.apply key) = true := by
    simp [Field.shapeChanged, Ne.symm renamed]
  have concerned : f.refersTo k := by simp [Field.refersTo, held, target]
  have followed : Project.keyEdited s.policy k key (patch.apply key) l f =
      f.follow .explicit key (patch.apply key) := by
    rw [Project.keyEdited, if_neg apart, if_pos ⟨changed, concerned⟩, explicit]
  rw [there, Option.map_some, followed] at written
  refine ⟨f, q.recordOrigin (f.follow .explicit key (patch.apply key)), there, ?_, ?_⟩
  · rw [commit_field? committed, explicit, settled, Project.field?_recordOrigins, written]
    rfl
  · rw [Project.recordOrigin_name]
    exact Field.follow_name same

/-- In every session under the explicit policy and every run in which a foreign key refers to one
other field and is not rewritten, its origin stays what it was. When its key is renamed as a primary
key, a linked foreign key takes the new name, and an independent one keeps its own. -/
theorem Reachable.origin_stable {commands : List (Timestamp × Command)} (reachable : Reachable s)
    (explicit : s.policy = .explicit) (apart : l ≠ k) (undisturbed : Undisturbed l k s commands) :
    ∃ origin, ∀ before after, commands = before ++ after →
      (s.afterAll before).HasOrigin l origin ∧
      ∀ now patch rest key outcome next,
        after = (now, .updateField k.table k.field patch) :: rest →
        (s.afterAll before).run now (.updateField k.table k.field patch) = .ok (outcome, next) →
        (s.afterAll before).project.field? k = some key →
        (patch.apply key).isPrimaryKey → (patch.apply key).name ≠ key.name →
        ∃ f g, (s.afterAll before).project.field? l = some f ∧ next.project.field? l = some g ∧
          g.name = origin.rename f.name (patch.apply key).name := by
  obtain ⟨f, origin, found, _, same⟩ := undisturbed.refers.recorded reachable.sound explicit
  refine ⟨origin, fun before after split => ?_⟩
  rw [split] at undisturbed
  obtain ⟨sound, remaining, recorded⟩ := undisturbed.hasOrigin reachable.sound ⟨f, found, same⟩
  have policy := (afterAll_sound reachable.sound before).2.trans explicit
  exact ⟨recorded, fun _ _ _ _ _ _ _ done key primary renamed =>
    run_rename sound policy apart remaining.refers recorded key primary renamed done⟩

/-- The linked key of stores is renamed by hand, and takes the name of its key when that is renamed
later. -/
theorem keyChain_renamed :
    let s : Session := ⟨Project.keyChain.recordOrigins, .explicit⟩
    let byHand := (Project.newYear, Command.updateField "S" "L" (.rename "region"))
    let byKey := (Project.newYear, Command.updateField "R" "K" (.rename "code"))
    Reachable s ∧ Undisturbed ⟨"S", "L"⟩ ⟨"R", "K"⟩ s [byHand, byKey] ∧
      (s.afterAll [byHand]).HasOrigin ⟨"S", "L"⟩ .linked ∧
      ∃ outcome next g, (s.afterAll [byHand]).run byKey.1 byKey.2 = .ok (outcome, next) ∧
        next.project.field? ⟨"S", "L"⟩ = some g ∧ g.name = "code" := by
  intro s byHand byKey
  have reachable : Reachable s := .start (.opened (show open? .explicit .keyChain = .ok _ from rfl))
  have undisturbed : Undisturbed ⟨"S", "L"⟩ ⟨"R", "K"⟩ s [byHand, byKey] :=
    ⟨refers_iff.mpr (by decide +kernel), fun _ _ _ => id, refers_iff.mpr (by decide +kernel),
      fun _ _ _ => id, refers_iff.mpr (by decide +kernel)⟩
  obtain ⟨origin, stable⟩ := reachable.origin_stable rfl (by decide) undisturbed
  obtain ⟨f, found, recorded⟩ := (stable [] [byHand, byKey] rfl).1
  obtain rfl := Option.some.inj found
  obtain rfl := Option.some.inj recorded
  obtain ⟨linked, renames⟩ := stable [byHand] [byKey] rfl
  have accepted : ((s.afterAll [byHand]).run byKey.1 byKey.2).isOk = true := by decide +kernel
  have known : ((s.afterAll [byHand]).project.field? ⟨"R", "K"⟩).map
      (fun key => (key.isPrimaryKey, key.name)) = some (true, "id") := by decide +kernel
  obtain ⟨key, located, same⟩ := Option.map_eq_some_iff.mp known
  obtain ⟨primary, name⟩ := Prod.mk.inj same
  cases done : (s.afterAll [byHand]).run byKey.1 byKey.2 with
  | error e =>
    rw [done] at accepted
    exact (Bool.false_ne_true accepted).elim
  | ok result =>
    have renamed : ((FieldPatch.rename "code").apply key).name ≠ key.name := by
      rw [name]
      exact (by decide : "code" ≠ "id")
    obtain ⟨_, g, _, reached, taken⟩ := renames _ _ _ key _ _ rfl done located primary renamed
    exact ⟨reachable, undisturbed, linked, result.1, result.2, g, rfl, reached, taken⟩

end Session
end LakeSchema
