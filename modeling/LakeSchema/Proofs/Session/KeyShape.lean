import LakeSchema.Proofs.ForeignKey.Propagation
import LakeSchema.Proofs.Session.Invariant

/-!
# Foreign keys in the shape of their keys

A key is aligned when all fields that refer to it have its type, nullability and comment. An edit of
a primary key reaches the fields that refer to it, but not those that refer to these in turn, so that
it breaks the alignment exactly when there are such fields and the shape is a new one
(`run_updateField_keysAligned_iff`).
-/

namespace LakeSchema

/-- The change of a type alone. -/
def FieldPatch.retype (dataType : DataType) : FieldPatch :=
  { name := .keep
    dataType := .set dataType
    typeParameters := .keep
    nullable := .keep
    defaultValue := .keep
    comment := .keep
    logicalName := .keep
    tags := .keep
    isPrimaryKey := .keep }

/-- What a foreign key has in common with its key whatever its origin. -/
structure Field.Shape where
  dataType : DataType
  typeParameters : Option TypeParameters
  nullable : Bool
  comment : Option String
deriving DecidableEq

def Field.shape (f : Field) : Field.Shape :=
  ⟨f.dataType, f.typeParameters, f.nullable, f.comment⟩

@[simp]
theorem Field.shape_follow (f : Field) (policy : OriginPolicy) (prior next : Field) :
    (f.follow policy prior next).shape = next.shape := by
  unfold follow
  split <;> rfl

theorem Field.shape_eq_of_not_shapeChanged {prior next : Field}
    (same : ¬ prior.shapeChanged next) : prior.shape = next.shape := by
  simp only [shapeChanged, Bool.or_eq_true, bne_iff_ne, not_or, not_not] at same
  simp [shape, same]

namespace Project

variable {p q : Project} {policy : OriginPolicy} {table id : String} {key : Field}

/-- The field that a field refers to. -/
def keyOf? (p : Project) (f : Field) : Option Field :=
  f.reference.bind fun r => p.field? r.target

/-- All fields that refer to a primary key have its shape. -/
def KeysAligned (p : Project) : Prop :=
  ∀ t ∈ p.tables, ∀ f ∈ t.fields, ∀ key ∈ p.keyOf? f, key.isPrimaryKey → f.shape = key.shape

instance : Decidable p.KeysAligned :=
  inferInstanceAs (Decidable (∀ t ∈ p.tables, ∀ f ∈ t.fields, ∀ key ∈ p.keyOf? f,
    key.isPrimaryKey → f.shape = key.shape))

/-- Some field refers to a primary key that itself refers to the location. -/
def PassesOn (p : Project) (l : Location) : Prop :=
  ∃ t ∈ p.tables, ∃ f ∈ t.fields, ∃ key ∈ p.keyOf? f, key.isPrimaryKey ∧ key.refersTo l

instance {l : Location} : Decidable (p.PassesOn l) :=
  inferInstanceAs (Decidable (∃ t ∈ p.tables, ∃ f ∈ t.fields, ∃ key ∈ p.keyOf? f,
    key.isPrimaryKey ∧ key.refersTo l))

theorem keyOf?_eq_some_iff {f : Field} :
    p.keyOf? f = some key ↔ ∃ r, f.reference = some r ∧ p.field? r.target = some key :=
  Option.bind_eq_some_iff

theorem keysAligned_iff (keyed : p.Keyed) :
    p.KeysAligned ↔ ∀ l f r key, p.field? l = some f → f.reference = some r →
      p.field? r.target = some key → key.isPrimaryKey → f.shape = key.shape := by
  constructor
  · intro aligned l f r key found refers target
    obtain ⟨t, member, _, present, _⟩ := (field?_eq_some_iff keyed).mp found
    exact aligned t member f present key (keyOf?_eq_some_iff.mpr ⟨r, refers, target⟩)
  · intro aligned t member f present key refers
    obtain ⟨r, refers, target⟩ := keyOf?_eq_some_iff.mp refers
    exact aligned _ f r key (field?_of_mem keyed member present) refers target

theorem passesOn_iff (keyed : p.Keyed) {l : Location} :
    p.PassesOn l ↔ ∃ m f r key, p.field? m = some f ∧ f.reference = some r ∧
      p.field? r.target = some key ∧ key.isPrimaryKey ∧ key.refersTo l := by
  constructor
  · rintro ⟨t, member, f, present, key, refers, primary, passes⟩
    obtain ⟨r, refers, target⟩ := keyOf?_eq_some_iff.mp refers
    exact ⟨_, f, r, key, field?_of_mem keyed member present, refers, target, primary, passes⟩
  · rintro ⟨m, f, r, key, found, refers, target, primary, passes⟩
    obtain ⟨t, member, _, present, _⟩ := (field?_eq_some_iff keyed).mp found
    exact ⟨t, member, f, present, key, keyOf?_eq_some_iff.mpr ⟨r, refers, target⟩, primary, passes⟩

/-- Alignment after a change of fields that keeps references and primary keys. -/
theorem keysAligned_map_iff {h : Location → Field → Field} (keyed : q.Keyed)
    (look : ∀ l, q.field? l = (p.field? l).map (h l))
    (keeps : ∀ l f, p.field? l = some f →
      (h l f).reference = f.reference ∧ (h l f).isPrimaryKey = f.isPrimaryKey) :
    q.KeysAligned ↔ ∀ l f r key, p.field? l = some f → f.reference = some r →
      p.field? r.target = some key → key.isPrimaryKey → (h l f).shape = (h r.target key).shape := by
  rw [keysAligned_iff keyed]
  simp only [look, Option.map_eq_some_iff]
  constructor
  · intro aligned l f r key found refers target primary
    refine aligned l _ r _ ⟨f, found, rfl⟩ ((keeps l f found).1.trans refers) ⟨key, target, rfl⟩ ?_
    rw [(keeps _ key target).2, primary]
  · rintro aligned l _ r _ ⟨f, found, rfl⟩ refers ⟨key, target, rfl⟩ primary
    rw [(keeps l f found).1] at refers
    rw [(keeps _ key target).2] at primary
    exact aligned l f r key found refers target primary

theorem keysAligned_recordOrigins (keyed : p.Keyed) :
    p.recordOrigins.KeysAligned ↔ p.KeysAligned := by
  have shape : ∀ f, (p.recordOrigin f).shape = f.shape := by
    intro f
    unfold recordOrigin
    split <;> rfl
  have primary : ∀ f, (p.recordOrigin f).isPrimaryKey = f.isPrimaryKey := by
    intro f
    unfold recordOrigin
    split <;> rfl
  rw [keysAligned_iff keyed, keysAligned_map_iff (p.recordOrigins_fieldwise.keyed rfl keyed)
    (p.recordOrigins_fieldwise.field? (p := p) rfl)
    fun _ f _ => ⟨(p.recordOrigin_keeps f).2.1, primary f⟩]
  simp only [shape]

/-! ### The edit of a key -/

section

variable {k l : Location} {f g next : Field} {r : Reference} (keyed : p.Keyed)
  (aligned : p.KeysAligned) (found : p.field? k = some key) (primary : key.isPrimaryKey)

include keyed aligned found primary

theorem shape_of_refersTo (present : p.field? l = some f) (refers : f.refersTo k) :
    f.shape = key.shape := by
  obtain ⟨r, known, rfl⟩ := refersTo_iff.mp refers
  exact (keysAligned_iff keyed).mp aligned l f r key present known found primary

/-- The key gives its new shape to the fields that refer to it. -/
theorem keyEdited_outcome (policy : OriginPolicy) (stays : next.isPrimaryKey)
    (kept : next.reference = key.reference) (present : p.field? l = some f) :
    (keyEdited policy k key next l f).reference = f.reference ∧
      (keyEdited policy k key next l f).isPrimaryKey = f.isPrimaryKey ∧
      (keyEdited policy k key next l f).shape =
        if l = k ∨ f.refersTo k then next.shape else f.shape := by
  unfold keyEdited
  by_cases here : l = k
  · obtain rfl : key = f := Option.some_inj.mp (found.symm.trans (here ▸ present))
    simp [here, kept, stays, primary]
  · by_cases refers : f.refersTo k
    · obtain ⟨_, reference, isKey⟩ := f.follow_keeps policy key next
      by_cases changed : key.shapeChanged next
      · simp [here, refers, changed, reference, isKey]
      · -- The field stays as it is, but has the shape that the key has before and after.
        have same : f.shape = next.shape :=
          (shape_of_refersTo keyed aligned found primary present refers).trans
            (Field.shape_eq_of_not_shapeChanged changed)
        simp [here, refers, changed, same]
    · simp [here, refers]

/-- A field stays in the shape of its key unless that follows the edited key, which has a new one. -/
theorem keyEdited_shape_iff (policy : OriginPolicy) (plain : key.reference = none)
    (stays : next.isPrimaryKey) (kept : next.reference = key.reference)
    (present : p.field? l = some f) (refers : f.reference = some r)
    (target : p.field? r.target = some g) (isKey : g.isPrimaryKey) :
    (keyEdited policy k key next l f).shape = (keyEdited policy k key next r.target g).shape ↔
      (g.refersTo k → next.shape = key.shape) := by
  rw [(keyEdited_outcome keyed aligned found primary policy stays kept present).2.2,
    (keyEdited_outcome keyed aligned found primary policy stays kept target).2.2]
  by_cases direct : r.target = k
  · obtain rfl : key = g := Option.some_inj.mp (found.symm.trans (direct ▸ target))
    have unfollowed : ¬ key.refersTo k := by simp [refersTo_iff, plain]
    simp [direct, unfollowed, refersTo_iff, refers]
  · have apart : l ≠ k := by
      rintro rfl
      obtain rfl : key = f := Option.some_inj.mp (found.symm.trans present)
      rw [plain] at refers
      contradiction
    have indirect : ¬ f.refersTo k := by simp [refersTo_iff, refers, direct]
    rw [if_neg (by simp [apart, indirect]),
      (keysAligned_iff keyed).mp aligned l f r g present refers target isKey]
    by_cases passes : g.refersTo k
    · simp [passes, shape_of_refersTo keyed aligned found primary target passes, eq_comm]
    · simp [passes, direct]

end

theorem updateField_keysAligned_iff {patch : FieldPatch} {answer : Field} {now : Timestamp}
    (keyed : p.Keyed) (aligned : p.KeysAligned) (found : p.field? ⟨table, id⟩ = some key)
    (primary : key.isPrimaryKey) (plain : key.reference = none)
    (stays : (patch.apply key).isPrimaryKey) (kept : q.Keyed)
    (done : p.updateField policy table id patch now = .ok (answer, q)) :
    q.KeysAligned ↔ (patch.apply key).shape = key.shape ∨ ¬ p.PassesOn ⟨table, id⟩ := by
  have pair := fun {l f r g} =>
    keyEdited_shape_iff (l := l) (f := f) (r := r) (g := g) keyed aligned found primary policy plain
      stays rfl
  rw [keysAligned_map_iff kept (fun l => field?_updateField_primary keyed found stays done)
    fun l f present =>
      let ⟨reference, isKey, _⟩ := keyEdited_outcome keyed aligned found primary policy stays rfl present
      ⟨reference, isKey⟩, passesOn_iff keyed]
  constructor
  · intro after
    by_contra broken
    obtain ⟨renewed, l, f, r, g, present, refers, target, isKey, passes⟩ := by
      simpa only [not_or, not_not] using broken
    exact renewed ((pair present refers target isKey).mp
      (after l f r g present refers target isKey) passes)
  · intro either l f r g present refers target isKey
    refine (pair present refers target isKey).mpr fun passes => ?_
    exact either.resolve_right (not_not.mpr ⟨l, f, r, g, present, refers, target, isKey, passes⟩)

end Project

namespace Session

variable {s next : Session} {now : Timestamp} {outcome : Outcome} {table id : String}
  {patch : FieldPatch} {key : Field}

theorem settled_keysAligned {policy : OriginPolicy} {p : Project} (keyed : p.Keyed) :
    (settled policy p).KeysAligned ↔ p.KeysAligned := by
  cases policy with
  | explicit => exact p.keysAligned_recordOrigins keyed
  | nameMatch => rfl

/-- The edit of a primary key that is no foreign key leaves all keys aligned exactly if the key keeps
its shape or no foreign key on it is a primary key that other fields refer to. -/
theorem run_updateField_keysAligned_iff (reachable : Reachable s) (aligned : s.project.KeysAligned)
    (found : s.project.field? ⟨table, id⟩ = some key) (primary : key.isPrimaryKey)
    (plain : key.reference = none) (stays : (patch.apply key).isPrimaryKey)
    (done : s.run now (.updateField table id patch) = .ok (outcome, next)) :
    next.project.KeysAligned ↔
      (patch.apply key).shape = key.shape ∨ ¬ s.project.PassesOn ⟨table, id⟩ := by
  have keyed := reachable.sound.consistent.toKeyed
  obtain ⟨answer, q, edited, committed, _⟩ := apply_eq_ok_iff.mp done
  obtain ⟨consistent, rfl⟩ := commit_eq_ok_iff.mp committed
  rw [← Project.updateField_keysAligned_iff keyed aligned found primary plain stays
    consistent.toKeyed edited]
  exact settled_keysAligned consistent.toKeyed

/-- The chain of keys with all its fields in one shape. -/
def evenChain : Session :=
  ⟨(Project.keyChain.updateFieldAt ⟨"T", "M"⟩ fun f => { f with nullable := false }).recordOrigins,
    .explicit⟩

theorem evenChain_reachable : Reachable evenChain :=
  .start (.opened (show open? .explicit (Project.keyChain.updateFieldAt ⟨"T", "M"⟩ fun f =>
    { f with nullable := false }) = .ok _ from rfl))

/-- Stores follow the key of regions, while sales, which refer to stores, keep the old type. -/
theorem evenChain_misaligned :
    ∃ key outcome next, Reachable evenChain ∧ evenChain.project.KeysAligned ∧
      evenChain.project.field? ⟨"R", "K"⟩ = some key ∧ key.isPrimaryKey ∧ key.isForeignKey = false ∧
      ((FieldPatch.retype .bigint).apply key).isPrimaryKey ∧
      evenChain.run Project.newYear (.updateField "R" "K" (.retype .bigint)) = .ok (outcome, next) ∧
      ¬ next.project.KeysAligned := by
  refine ⟨_, _, _, evenChain_reachable, by decide, rfl, rfl, rfl, rfl, rfl, by decide⟩

/-- Without sales the same edit leaves all keys aligned. -/
theorem evenChain_without_sales_aligned :
    let s := evenChain.after Project.newYear (.deleteTable "T")
    Reachable s ∧ s.project.KeysAligned ∧
      ∃ outcome next, s.run Project.newYear (.updateField "R" "K" (.retype .bigint)) =
        .ok (outcome, next) ∧ next.project.KeysAligned := by
  have reachable := evenChain_reachable.after Project.newYear (.deleteTable "T")
  have aligned : (evenChain.after Project.newYear (.deleteTable "T")).project.KeysAligned := by decide
  obtain ⟨outcome, next, done⟩ : ∃ outcome next,
      (evenChain.after Project.newYear (.deleteTable "T")).run Project.newYear
        (.updateField "R" "K" (.retype .bigint)) = .ok (outcome, next) := ⟨_, _, rfl⟩
  refine ⟨reachable, aligned, outcome, next, done, ?_⟩
  exact (run_updateField_keysAligned_iff reachable aligned rfl rfl rfl rfl done).mpr (.inr (by decide))

end Session
end LakeSchema
