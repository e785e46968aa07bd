import LakeSchema.Proofs.ForeignKey.NameClash

/-!
# The edit of a field

`FieldRefusal` lists why an edit of a field is refused, and `FieldEdited` says what it may change: the
field, the fields that refer to it, and times. `updateField_cases` shows that every edit ends in one of
the two ways.
-/

namespace LakeSchema

variable {policy : OriginPolicy} {k l m : Location} {prior next key f g : Field} {now : Timestamp}

/-! ### One field -/

namespace Field

/-- Two states of a key differ in what the fields that refer to it take from it. -/
def Reshaped (prior next : Field) : Prop :=
  prior.name ≠ next.name ∨ prior.dataType ≠ next.dataType ∨
    prior.typeParameters ≠ next.typeParameters ∨ prior.nullable ≠ next.nullable ∨
    prior.comment ≠ next.comment ∨ prior.tags ≠ next.tags

theorem shapeChanged_iff : prior.shapeChanged next ↔ prior.Reshaped next := by
  simp [shapeChanged, Reshaped, or_assoc]

/-- The field `g` is `f` in line with a key that changed from `prior` to `next`. -/
structure InLine (f : Field) (policy : OriginPolicy) (prior next g : Field) : Prop where
  id : g.id = f.id
  name : g.name =
    if f.originUnder policy (some prior.name) = .linked then next.name else f.name
  dataType : g.dataType = next.dataType
  typeParameters : g.typeParameters = next.typeParameters
  nullable : g.nullable = next.nullable
  defaultValue : g.defaultValue = f.defaultValue
  comment : g.comment = next.comment
  logicalName : g.logicalName = f.logicalName.or next.logicalName
  tags : ∀ key, g.tags.get? key = (f.tags.get? key).or (next.tags.get? key)
  isPrimaryKey : g.isPrimaryKey = f.isPrimaryKey
  isForeignKey : g.isForeignKey = f.isForeignKey
  reference : g.reference = f.reference
  origin : g.origin = f.origin

theorem follow_eq (f : Field) (policy : OriginPolicy) (prior next : Field) :
    f.follow policy prior next =
      { f.adopt next with
        name := if f.originUnder policy (some prior.name) = .linked then next.name else f.name } := by
  unfold follow
  cases f.originUnder policy (some prior.name) <;> rfl

theorem follow_inLine (f : Field) (policy : OriginPolicy) (prior next : Field) :
    f.InLine policy prior next (f.follow policy prior next) := by
  rw [follow_eq]
  exact ⟨rfl, rfl, rfl, rfl, rfl, rfl, rfl, rfl, fun key => TagMap.get?_merge key next.tags f.tags,
    rfl, rfl, rfl, rfl⟩

/-- The edit of the field at `k` reaches a field at `l`, which refers to it. -/
def Reached (f : Field) (k : Location) (prior next : Field) (l : Location) : Prop :=
  next.isPrimaryKey ∧ prior.Reshaped next ∧ l ≠ k ∧ f.refersTo k

instance : Decidable (f.Reached k prior next l) :=
  inferInstanceAs (Decidable (_ ∧ (_ ∨ _ ∨ _ ∨ _ ∨ _ ∨ _) ∧ _ ∧ _))

/-- What the edit of the field at `k` from `prior` to `next` makes of a field at `l`. -/
inductive Edited (f : Field) (policy : OriginPolicy) (k : Location) (prior next : Field)
    (l : Location) (g : Field) : Prop where
  | written (here : l = k) (same : g = next)
  | followed (reached : f.Reached k prior next l) (inLine : f.InLine policy prior next g)
  | kept (apart : l ≠ k) (unreached : ¬ f.Reached k prior next l) (same : g = f)

/-- The edit reaches a linked field that has another name than the key then has. -/
def Renamed (f : Field) (policy : OriginPolicy) (k : Location) (prior next : Field) (l : Location) :
    Prop :=
  f.Reached k prior next l ∧ f.originUnder policy (some prior.name) = .linked ∧ f.name ≠ next.name

theorem Renamed.name (renamed : f.Renamed policy k prior next l)
    (edited : f.Edited policy k prior next l g) : g.name = next.name := by
  obtain ⟨reached, linked, _⟩ := renamed
  cases edited with
  | written here _ => exact (reached.2.2.1 here).elim
  | followed _ inLine => rw [inLine.name, if_pos linked]
  | kept _ unreached _ => exact (unreached reached).elim

theorem Edited.name_unique {g' : Field} (first : f.Edited policy k prior next l g)
    (second : f.Edited policy k prior next l g') : g.name = g'.name := by
  cases first with
  | written here same =>
    cases second with
    | written _ same' => rw [same, same']
    | followed reached _ => exact (reached.2.2.1 here).elim
    | kept apart _ _ => exact (apart here).elim
  | followed reached inLine =>
    cases second with
    | written here _ => exact (reached.2.2.1 here).elim
    | followed _ inLine' => rw [inLine.name, inLine'.name]
    | kept _ unreached _ => exact (unreached reached).elim
  | kept apart unreached same =>
    cases second with
    | written here _ => exact (apart here).elim
    | followed reached _ => exact (unreached reached).elim
    | kept _ _ same' => rw [same, same']

theorem Edited.keeps (edited : f.Edited policy k prior next l g) (own : l = k → f = prior)
    (same : next.reference = prior.reference ∧ next.isForeignKey = prior.isForeignKey ∧
      next.origin = prior.origin) :
    g.reference = f.reference ∧ g.isForeignKey = f.isForeignKey ∧ g.origin = f.origin := by
  cases edited with
  | written here equal => rwa [equal, own here]
  | followed _ inLine => exact ⟨inLine.reference, inLine.isForeignKey, inLine.origin⟩
  | kept _ _ equal => simp [equal]

end Field

/-- The field at `l` after a patch of the field `key` at `k`. -/
def FieldPatch.effect (patch : FieldPatch) (policy : OriginPolicy) (k : Location) (key : Field)
    (l : Location) (f : Field) : Field :=
  if l = k then patch.apply f
  else if f.Reached k key (patch.apply key) l then f.follow policy key (patch.apply key)
  else f

variable {patch : FieldPatch}

/-! ### Tables and projects -/

/-- What the edit of a field makes of a table: no field moves, and only a table with the field or with
a field that it reaches notes the time. -/
structure Table.FieldEdited (policy : OriginPolicy) (k : Location) (prior next : Field)
    (now : Timestamp) (t u : Table) : Prop where
  fields : List.Forall₂ (fun f g => f.Edited policy k prior next ⟨t.id, f.id⟩ g) t.fields u.fields
  updatedAt : u.updatedAt =
    if t.id = k.table ∨ ∃ f ∈ t.fields, f.Reached k prior next ⟨t.id, f.id⟩ then now else t.updatedAt
  others : u = { t with fields := u.fields, updatedAt := u.updatedAt }

/-- The project `q` is `p` with the field at `k` edited. -/
structure Project.FieldEdited (policy : OriginPolicy) (k : Location) (prior next : Field)
    (now : Timestamp) (p q : Project) : Prop where
  tables : List.Forall₂ (Table.FieldEdited policy k prior next now) p.tables q.tables
  updatedAt : q.updatedAt = now
  others : q = { p with tables := q.tables, updatedAt := q.updatedAt }

def FieldPatch.write (patch : FieldPatch) (k : Location) (now : Timestamp) (t : Table) : Table :=
  { t with
    fields := t.fields.map fun f => if (⟨t.id, f.id⟩ : Location) = k then patch.apply f else f
    updatedAt := if t.id = k.table then now else t.updatedAt }

def FieldPatch.table (patch : FieldPatch) (policy : OriginPolicy) (k : Location) (key : Field)
    (now : Timestamp) (t : Table) : Table :=
  { t with
    fields := t.fields.map fun f => patch.effect policy k key ⟨t.id, f.id⟩ f
    updatedAt :=
      if t.id = k.table ∨ ∃ f ∈ t.fields, f.Reached k key (patch.apply key) ⟨t.id, f.id⟩ then now
      else t.updatedAt }

theorem FieldPatch.table_fieldwise (patch : FieldPatch) (policy : OriginPolicy) (k : Location)
    (key : Field) (now : Timestamp) :
    Project.Fieldwise (patch.table policy k key now) (patch.effect policy k key) where
  id _ := rfl
  fields _ := rfl
  fieldId l f := by
    unfold effect
    split
    · rfl
    · split
      · exact (f.follow_keeps policy key (patch.apply key)).1
      · rfl

namespace Project

variable {p q : Project} {change : KeyChange}

/-- The project after a patch of the field `key` at `k`, the time of its last change aside. -/
def fieldPatched (p : Project) (policy : OriginPolicy) (k : Location) (key : Field)
    (patch : FieldPatch) (now : Timestamp) : Project :=
  { p with tables := p.tables.map (patch.table policy k key now) }

theorem own_of_field? (found : p.field? k = some key) (present : p.field? l = some f) :
    l = k → f = key := by
  rintro rfl
  exact Option.some.inj (present.symm.trans found)

theorem effect_edited (found : p.field? k = some key) (present : p.field? l = some f) :
    f.Edited policy k key (patch.apply key) l (patch.effect policy k key l f) := by
  unfold FieldPatch.effect
  by_cases here : l = k
  · exact .written here (by rw [if_pos here, own_of_field? found present here])
  rw [if_neg here]
  by_cases reached : f.Reached k key (patch.apply key) l
  · rw [if_pos reached]
    exact .followed reached (f.follow_inLine policy key (patch.apply key))
  · rw [if_neg reached]
    exact .kept here reached rfl

theorem effect_keeps (found : p.field? k = some key) (present : p.field? l = some f)
    (policy : OriginPolicy) (patch : FieldPatch) :
    let g := patch.effect policy k key l f
    g.reference = f.reference ∧ g.isForeignKey = f.isForeignKey ∧ g.origin = f.origin :=
  (effect_edited found present).keeps (own_of_field? found present) ⟨rfl, rfl, rfl⟩

theorem table_edited (keyed : p.Keyed) (found : p.field? k = some key) {t : Table}
    (member : t ∈ p.tables) :
    t.FieldEdited policy k key (patch.apply key) now (patch.table policy k key now t) where
  fields := by
    refine List.forall₂_map_right_iff.mpr (List.forall₂_same.mpr fun f present => ?_)
    exact effect_edited found (field?_of_mem keyed member present)
  updatedAt := rfl
  others := rfl

theorem fieldPatched_edited (keyed : p.Keyed) (found : p.field? k = some key) :
    p.FieldEdited policy k key (patch.apply key) now
      { p.fieldPatched policy k key patch now with updatedAt := now } where
  tables := List.forall₂_map_right_iff.mpr (List.forall₂_same.mpr fun _ member =>
    table_edited keyed found member)
  updatedAt := rfl
  others := rfl

theorem fieldPatched_consistent (consistent : p.Consistent) (found : p.field? k = some key)
    (policy : OriginPolicy) (patch : FieldPatch) (now : Timestamp) :
    (p.fieldPatched policy k key patch now).Consistent := by
  refine consistent.fieldwise (patch.table_fieldwise policy k key now) rfl (fun l f present => ?_)
    rfl rfl rfl
  obtain ⟨reference, flag, _⟩ := effect_keeps found present policy patch
  exact ⟨reference, flag⟩

theorem mk_eq_iff {table field : String} :
    (⟨table, field⟩ : Location) = l ↔ table = l.table ∧ field = l.field := by
  obtain ⟨_, _⟩ := l
  simp

theorem writeField_eq (keyed : p.Keyed) (k : Location) (patch : FieldPatch) (now : Timestamp) :
    p.writeField k patch now = { p with tables := p.tables.map (patch.write k now) } := by
  rw [writeField, updateTable, updateFirst_eq_map keyed.tables]
  congr 1
  refine List.map_congr_left fun t member => ?_
  rw [FieldPatch.write]
  by_cases here : t.id = k.table
  · rw [if_pos here, if_pos here, updateFirst_eq_map (keyed.fields t member)]
    simp only [mk_eq_iff, here, true_and]
  · simp [mk_eq_iff, here]

theorem writeField_keyed (keyed : p.Keyed) (k : Location) (patch : FieldPatch) (now : Timestamp) :
    (p.writeField k patch now).Keyed := by
  refine updateTable_keyed keyed k.table (by intro t; rfl) fun t => ?_
  rw [updateFirst_map_key (by intro f; rfl)]

theorem patched_key (named : key.id = k.field) (patch : FieldPatch) :
    KeyChange.key ⟨k.table, key, patch.apply key⟩ = k :=
  mk_eq_iff.mpr ⟨rfl, named⟩

theorem syncedTable_written (named : key.id = k.field) (primary : (patch.apply key).isPrimaryKey)
    (reshaped : key.Reshaped (patch.apply key)) (policy : OriginPolicy) (now : Timestamp) (t : Table) :
    KeyChange.syncedTable ⟨k.table, key, patch.apply key⟩ policy now (patch.write k now t) =
      patch.table policy k key now t := by
  have changed := patched_key named patch
  have effect (l : Location) (f : Field) :
      KeyChange.effect ⟨k.table, key, patch.apply key⟩ policy l (if l = k then patch.apply f else f) =
        patch.effect policy k key l f := by
    by_cases here : l = k
    · simp [KeyChange.effect, FieldPatch.effect, changed, here]
    · simp [KeyChange.effect, FieldPatch.effect, Field.Reached, changed, here, primary, reshaped]
  have id (f : Field) : (if (⟨t.id, f.id⟩ : Location) = k then patch.apply f else f).id = f.id := by
    split <;> rfl
  have refers (f : Field) :
      (if (⟨t.id, f.id⟩ : Location) = k then patch.apply f else f).refersTo k = f.refersTo k := by
    split <;> rfl
  have concerned : (patch.write k now t).fields.any
      (KeyChange.concerns ⟨k.table, key, patch.apply key⟩ (patch.write k now t)) ↔
        ∃ f ∈ t.fields, f.Reached k key (patch.apply key) ⟨t.id, f.id⟩ := by
    simp [FieldPatch.write, KeyChange.concerns, Field.Reached, id, refers, changed, primary, reshaped]
  rw [KeyChange.syncedTable_eq]
  simp only [concerned]
  simp only [FieldPatch.write, FieldPatch.table, List.map_map, Function.comp_def, id, effect]
  by_cases here : t.id = k.table <;> simp [here]

/-- The field is written, and the foreign keys on it are brought in line if the edit reaches them. -/
theorem writeField_alignAll (keyed : p.Keyed) (found : p.field? k = some key)
    (policy : OriginPolicy) (patch : FieldPatch) (now : Timestamp) :
    (p.writeField k patch now).alignAll policy now
        (if (patch.apply key).isPrimaryKey ∧ key.shapeChanged (patch.apply key) then
          [⟨k.table, key, patch.apply key⟩] else []) =
      p.fieldPatched policy k key patch now := by
  rw [writeField_eq keyed]
  split
  · rename_i spreads
    simp only [alignAll, List.foldl_cons, List.foldl_nil, propagate, if_pos spreads.2, List.map_map]
    congr 1
    refine List.map_congr_left fun t _ => ?_
    exact syncedTable_written (field?_id found) spreads.1 (Field.shapeChanged_iff.mp spreads.2)
      policy now t
  · rename_i idle
    have unreached (l : Location) (f : Field) : ¬ f.Reached k key (patch.apply key) l :=
      fun reached => idle ⟨reached.1, Field.shapeChanged_iff.mpr reached.2.1⟩
    change ({ p with tables := p.tables.map (patch.write k now) } : Project) = _
    congr 1
    refine List.map_congr_left fun t _ => ?_
    simp [FieldPatch.write, FieldPatch.table, FieldPatch.effect, unreached]

theorem field?_fieldPatched (policy : OriginPolicy) (k : Location) (key : Field) (patch : FieldPatch)
    (now : Timestamp) (l : Location) :
    (p.fieldPatched policy k key patch now).field? l =
      (p.field? l).map (patch.effect policy k key l) :=
  (patch.table_fieldwise policy k key now).field? rfl l

/-! ### Refusals -/

/-- The field at `l` is renamed after the key, whose name the field at `m` of its table has then. -/
def NameTaken (p : Project) (policy : OriginPolicy) (k : Location) (prior next : Field)
    (l m : Location) : Prop :=
  l ≠ m ∧ l.table = m.table ∧ ∃ f g g', p.field? l = some f ∧ f.Renamed policy k prior next l ∧
    p.field? m = some g ∧ g.Edited policy k prior next m g' ∧
      Text.sameIgnoringCase g'.name next.name

/-- Why a patch of a field is refused. -/
inductive FieldRefusal (p : Project) (policy : OriginPolicy) (table id : String)
    (patch : FieldPatch) : SchemaError → Prop where
  | noTable (absent : p.table? table = none) :
    FieldRefusal p policy table id patch (.notFound .table table)
  | noField {t : Table} (located : p.table? table = some t) (absent : t.field? id = none) :
    FieldRefusal p policy table id patch (.notFound .field id)
  | unusable {key : Field} {problem : NameError} (found : p.field? ⟨table, id⟩ = some key)
      (reported : Name.fieldProblem? (patch.apply key).name = some problem) :
    FieldRefusal p policy table id patch (.validation id problem.message)
  | taken {key : Field} {l m : Location} {t : Table} (found : p.field? ⟨table, id⟩ = some key)
      (usable : Name.fieldProblem? (patch.apply key).name = none)
      (taken : p.NameTaken policy ⟨table, id⟩ key (patch.apply key) l m)
      (located : p.table? l.table = some t) :
    FieldRefusal p policy table id patch (.nameTaken l.field (patch.apply key).name t.name)

theorem renames_writeField_iff (found : p.field? k = some key)
    (primary : (patch.apply key).isPrimaryKey) :
    (p.writeField k patch now).Renames policy ⟨k.table, key, patch.apply key⟩ l ↔
      ∃ f, p.field? l = some f ∧ f.Renamed policy k key (patch.apply key) l := by
  have changed := patched_key (field?_id found) patch
  simp only [Renames, Field.Renamed, Field.Reached, changed, primary, ← Field.shapeChanged_iff,
    field?_writeField, true_and]
  constructor
  · rintro ⟨shape, apart, f, present, refers, linked, differs⟩
    rw [if_neg apart] at present
    exact ⟨f, present, ⟨shape, apart, refers⟩, linked, differs⟩
  · rintro ⟨f, present, ⟨shape, apart, refers⟩, linked, differs⟩
    exact ⟨shape, apart, f, by rwa [if_neg apart], refers, linked, differs⟩

theorem nameTaken_iff (found : p.field? k = some key) (primary : (patch.apply key).isPrimaryKey) :
    p.NameTaken policy k key (patch.apply key) l m ↔
      (p.writeField k patch now).Renames policy ⟨k.table, key, patch.apply key⟩ l ∧
        (p.fieldPatched policy k key patch now).SameName l m := by
  have edited {l : Location} {f : Field} (present : p.field? l = some f) :
      f.Edited policy k key (patch.apply key) l (patch.effect policy k key l f) :=
    effect_edited found present
  simp only [renames_writeField_iff found primary, SameName, field?_fieldPatched, Option.map_eq_some_iff]
  constructor
  · rintro ⟨apart, inside, f, g, g', present, renamed, other, outcome, same⟩
    refine ⟨⟨f, present, renamed⟩, apart, inside, _, _, ⟨f, present, rfl⟩, ⟨g, other, rfl⟩, ?_⟩
    rw [renamed.name (edited present), (edited other).name_unique outcome, sameIgnoringCase_comm]
    exact same
  · rintro ⟨⟨f, present, renamed⟩, apart, inside, _, _, ⟨f', again, rfl⟩, ⟨g, other, rfl⟩, same⟩
    obtain rfl := Option.some.inj (present.symm.trans again)
    rw [renamed.name (edited present), sameIgnoringCase_comm] at same
    exact ⟨apart, inside, f, g, _, present, renamed, other, edited other, same⟩

theorem require_eq_ok {table id : String} (found : q.field? ⟨table, id⟩ = some f) :
    (do
      let t ← q.requireTable table
      let f ← requireField t id
      pure (f, q)) = Except.ok (f, q) := by
  obtain ⟨t, located, present⟩ := Option.bind_eq_some_iff.mp found
  exact bind_eq_ok_iff.mpr ⟨t, requireTable_eq_ok_iff.mpr located,
    bind_eq_ok_iff.mpr ⟨f, requireField_eq_ok_iff.mpr present, rfl⟩⟩

/-- An edit that finds its field and gives it a usable name is done unless a name is taken. -/
theorem updateField_found {table id : String} (keyed : p.Keyed)
    (found : p.field? ⟨table, id⟩ = some key)
    (usable : Name.fieldProblem? (patch.apply key).name = none) (policy : OriginPolicy)
    (now : Timestamp) :
    (∃ l m t, p.NameTaken policy ⟨table, id⟩ key (patch.apply key) l m ∧ p.table? l.table = some t ∧
        p.updateField policy table id patch now =
          .error (.nameTaken l.field (patch.apply key).name t.name)) ∨
      ((∀ l m, ¬ p.NameTaken policy ⟨table, id⟩ key (patch.apply key) l m) ∧
        p.updateField policy table id patch now =
          .ok (patch.apply key,
            p.fieldPatched policy ⟨table, id⟩ key patch now)) := by
  have aligned := writeField_alignAll keyed found policy patch now
  have held : (p.fieldPatched policy ⟨table, id⟩ key patch now).field? ⟨table, id⟩ =
      some (patch.apply key) := by
    rw [field?_fieldPatched, found, Option.map_some, FieldPatch.effect, if_pos rfl]
  have written := writeField_keyed keyed ⟨table, id⟩ patch now
  rw [updateField_eq keyed found usable]
  -- A patch that leaves the shape of the key alone reaches no field and renames none.
  split at aligned
  · rename_i spreads
    rw [if_pos spreads]
    change ((p.writeField ⟨table, id⟩ patch now).propagate policy ⟨table, key, patch.apply key⟩ now).2 =
      _ at aligned
    rcases propagateAll_singleton written ⟨table, key, patch.apply key⟩ policy now with
      ⟨done, quiet⟩ | ⟨l, m, t, renames, same, located, refused⟩
    · refine .inr ⟨fun l m taken => ?_, ?_⟩
      · obtain ⟨renames, same⟩ := (nameTaken_iff found spreads.1).mp taken
        exact quiet l m renames (aligned ▸ same)
      · rw [done, aligned]
        exact require_eq_ok held
    · rw [aligned] at same located
      rw [(patch.table_fieldwise policy ⟨table, id⟩ key now).table? rfl] at located
      obtain ⟨u, inside, rfl⟩ := Option.map_eq_some_iff.mp located
      refine .inl ⟨l, m, u, (nameTaken_iff found spreads.1).mpr ⟨renames, same⟩, inside, ?_⟩
      rw [refused]
      rfl
  · rename_i idle
    rw [if_neg idle]
    refine .inr ⟨?_, ?_⟩
    · rintro l m ⟨_, _, _, _, _, _, renamed, _⟩
      exact idle ⟨renamed.1.1, Field.shapeChanged_iff.mpr renamed.1.2.1⟩
    · change p.writeField ⟨table, id⟩ patch now = _ at aligned
      rw [aligned]
      exact require_eq_ok held

/-- A patch of a field is refused for one of the reasons, or it is done and there is no such reason. -/
theorem updateField_cases (keyed : p.Keyed) (policy : OriginPolicy) (table id : String)
    (patch : FieldPatch) (now : Timestamp) :
    (∃ error, p.FieldRefusal policy table id patch error ∧
        p.updateField policy table id patch now = .error error) ∨
      ((∀ error, ¬ p.FieldRefusal policy table id patch error) ∧
        ∃ key, p.field? ⟨table, id⟩ = some key ∧
          p.updateField policy table id patch now =
            .ok (patch.apply key,
              p.fieldPatched policy ⟨table, id⟩ key patch now)) := by
  cases located : p.table? table with
  | none =>
    refine .inl ⟨_, .noTable located, bind_eq_error_iff.mpr (.inl ?_)⟩
    exact requireTable_eq_error_iff.mpr ⟨located, rfl⟩
  | some t =>
  have there := requireTable_eq_ok_iff.mpr located
  cases present : t.field? id with
  | none =>
    refine .inl ⟨_, .noField located present, bind_eq_error_iff.mpr (.inr ⟨t, there, ?_⟩)⟩
    exact bind_eq_error_iff.mpr (.inl (requireField_eq_error_iff.mpr ⟨present, rfl⟩))
  | some key =>
  have found : p.field? ⟨table, id⟩ = some key := (field?_of_table? located rfl).trans present
  cases reported : Name.fieldProblem? (patch.apply key).name with
  | some problem =>
    refine .inl ⟨_, .unusable found reported, bind_eq_error_iff.mpr (.inr ⟨t, there, ?_⟩)⟩
    refine bind_eq_error_iff.mpr (.inr ⟨key, requireField_eq_ok_iff.mpr present, ?_⟩)
    exact bind_eq_error_iff.mpr (.inl (by rw [reported]; rfl))
  | none =>
    rcases updateField_found keyed found reported policy now with
      ⟨l, m, u, taken, inside, refused⟩ | ⟨free, done⟩
    · exact .inl ⟨_, .taken found reported taken inside, refused⟩
    · refine .inr ⟨fun error refusal => ?_, key, found, done⟩
      cases refusal with
      | noTable absent => simp [located] at absent
      | noField again absent =>
        obtain rfl := Option.some.inj (located.symm.trans again)
        simp [present] at absent
      | unusable again problem =>
        obtain rfl := Option.some.inj (found.symm.trans again)
        simp [reported] at problem
      | taken again _ taken _ =>
        obtain rfl := Option.some.inj (found.symm.trans again)
        exact free _ _ taken

end Project
end LakeSchema
