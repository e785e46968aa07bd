import LakeSchema.Proofs.Sql.ConstraintName
import LakeSchema.Proofs.Compile.Statements
import LakeSchema.Proofs.Text.Cutting
import Mathlib.Data.List.Pairwise

/-!
# Names of constraints

The constraints of a table are its primary key and its foreign keys. A name that is made for one of
them keeps nothing but the words of its parts, so it can be the name of another one as well. The names
that a script states for a table (`statedNames`) clash only where they were given exactly if
the fields whose keys need a name differ in their words and no given name is a made one
(`compile_constraints_apart_iff`).
-/

namespace LakeSchema

namespace Sql

/-! ### Reading a name at the front of a text -/

/-- The rest of a name behind its opening backtick; two backticks in a row are one of the name. -/
def quotedFront? : List Char → Option (List Char)
  | [] => none
  | [c] => if c == backtick then some [] else none
  | c :: d :: rest =>
    if c == backtick then
      if d == backtick then (quotedFront? rest).map (backtick :: ·) else some []
    else (quotedFront? (d :: rest)).map (c :: ·)

/-- The name that a text begins with, plain or between backticks. -/
def nameFront? : List Char → Option String
  | [] => none
  | c :: rest =>
    if c == backtick then (quotedFront? rest).map String.ofList
    else if Text.isIdentifierStart c then
      some (String.ofList (c :: rest.takeWhile Text.isIdentifierPart))
    else none

variable {cs rest : List Char}

theorem quotedFront?_doubled (ends : ∀ c ∈ rest.head?, c ≠ backtick) :
    quotedFront? (Text.replaceChar backtick [backtick, backtick] cs ++ backtick :: rest) =
      some cs := by
  induction cs with
  | nil =>
    cases rest with
    | nil => rfl
    | cons c rest => simp [Text.replaceChar, quotedFront?, ends c rfl]
  | cons c cs ih =>
    obtain ⟨d, tail, next⟩ : ∃ d tail,
        Text.replaceChar backtick [backtick, backtick] cs ++ backtick :: rest = d :: tail :=
      List.exists_cons_of_ne_nil (by simp)
    by_cases tick : c = backtick
    · subst tick
      have same : Text.replaceChar backtick [backtick, backtick] (backtick :: cs) =
          backtick :: backtick :: Text.replaceChar backtick [backtick, backtick] cs := rfl
      rw [same, List.cons_append, List.cons_append, quotedFront?, ih]
      rfl
    · have same : Text.replaceChar backtick [backtick, backtick] (c :: cs) =
          c :: Text.replaceChar backtick [backtick, backtick] cs := by
        simp [Text.replaceChar, tick]
      rw [same, List.cons_append, next, quotedFront?, if_neg (by simpa using tick), ← next, ih]
      rfl

/-- A quoted name is read back in front of what goes on with neither a letter nor a backtick. -/
theorem nameFront?_quoteIdentifier (name : String)
    (ends : ∀ c ∈ rest.head?, Text.isIdentifierPart c = false ∧ c ≠ backtick) :
    nameFront? ((quoteIdentifier name).toList ++ rest) = some name := by
  unfold quoteIdentifier
  split
  · rename_i plain
    have letters := (Bool.and_eq_true_iff.mp plain).1
    obtain ⟨cs, rfl⟩ : ∃ cs, name = String.ofList cs := ⟨_, String.ofList_toList.symm⟩
    rw [String.toList_ofList] at letters ⊢
    cases cs with
    | nil => cases letters
    | cons c cs =>
      obtain ⟨start, parts⟩ := Bool.and_eq_true_iff.mp letters
      have unquoted : (c == backtick) = false := by
        refine beq_false_of_ne ?_
        rintro rfl
        cases start
      have stops : rest.takeWhile Text.isIdentifierPart = [] := by
        cases rest with
        | nil => rfl
        | cons d rest => exact List.takeWhile_cons_of_neg (by simp [(ends d rfl).1])
      rw [List.cons_append, nameFront?, unquoted, if_neg Bool.false_ne_true, if_pos start,
        List.takeWhile_append_of_pos (List.all_eq_true.mp parts), stops, List.append_nil]
  · rw [String.toList_ofList, inBackticks, List.cons_append, List.cons_append, List.append_assoc,
      nameFront?, if_pos (beq_self_eq_true _), List.singleton_append,
      quotedFront?_doubled fun c first => (ends c first).2, Option.map_some, String.ofList_toList]

end Sql

/-! ### Constraints of a table -/

/-- The name of a constraint behind the words in front of it. -/
def nameBehind? (lead clause : String) : Option String :=
  (Text.after? lead.toList clause.toList).bind Sql.nameFront?

/-- A creation up to the name of its inline primary key. -/
def keyLead (target : Target) (t : Table) : String :=
  target.mode.opening "TABLE" ++ " " ++ target.qualified t.name ++ " (\n  " ++
    ",\n  ".intercalate (t.fields.map Field.columnDefinition) ++ ",\n  CONSTRAINT "

/-- The names that a script states for the constraints of a table, that of the primary key first. -/
def statedNames (target : Target) (statements : List Statement) (t : Table) : List String :=
  let contents := statements.map (·.toContent)
  let creations := contents.filter fun s => s.kind == .createTable && s.entity == t.id
  let additions := contents.filter fun s =>
    s.kind == .addConstraint && s.object == target.qualified t.name
  creations.filterMap (fun s => nameBehind? (keyLead target t) s.sql) ++
    additions.filterMap fun s => nameBehind? ("ALTER TABLE " ++ s.object ++ " ADD CONSTRAINT ") s.sql

/-- The name of a constraint, and whether it was given to it. -/
structure Constraint where
  name : String
  given : Bool
deriving DecidableEq

/-- Two constraints have different names, or both were given theirs. -/
def Constraint.Apart (a b : Constraint) : Prop :=
  a.name = b.name → a.given = true ∧ b.given = true

instance (a b : Constraint) : Decidable (a.Apart b) :=
  inferInstanceAs (Decidable (_ → _))

/-- The made name of a table's primary key. -/
def Table.keyName (t : Table) : String :=
  ConstraintName.ofParts ["pk", t.name]

/-- The made name of a foreign key. -/
def Table.foreignKeyName (t : Table) (f : Field) : String :=
  ConstraintName.ofParts ["fk", t.name, f.name]

namespace Project

/-- The name that a reference, or else the relationship that stands for it, gives to a foreign key. -/
def givenName? (p : Project) (t : Table) (f : Field) (r : Reference) : Option String :=
  (nonBlank? r.constraintName).or
    (nonBlank? ((p.relationshipOf? ⟨t.id, f.id⟩ r.target).bind (·.constraintName)))

/-- The constraint of a field that refers to a key. -/
def foreignKey? (p : Project) (t : Table) (f : Field) : Option Constraint :=
  f.reference.map fun r =>
    ⟨(p.givenName? t f r).getD (t.foreignKeyName f), (p.givenName? t f r).isSome⟩

/-- The constraints of a table, its primary key first. -/
def constraints (p : Project) (t : Table) : List Constraint :=
  (if t.primaryKey.isEmpty then [] else [⟨t.keyName, false⟩]) ++ t.fields.filterMap (p.foreignKey? t)

/-- Whether the name of a field's foreign key has to be made. -/
def needsName (p : Project) (t : Table) (f : Field) : Bool :=
  (p.foreignKey? t f).any (!·.given)

/-- Made names differ from each other and from those that are given. -/
structure NamesApart (p : Project) (t : Table) : Prop where
  words : ((t.fields.filter (p.needsName t)).map fun f => ConstraintName.words f.name.toList).Nodup
  given : ∀ f ∈ t.fields, ∀ r name, f.reference = some r → p.givenName? t f r = some name →
    (t.primaryKey ≠ [] → name ≠ t.keyName) ∧
      ∀ other ∈ t.fields, p.needsName t other = true → name ≠ t.foreignKeyName other

variable {p : Project} {options : CompileOptions} {target : Target} {t u : Table} {f g : Field}
  {statements : List Statement} {tables : List Table}

/-! ### What the script states -/

theorem nameBehind?_append (lead name words rest : String)
    (ends : ∀ c ∈ words.toList.head?, Text.isIdentifierPart c = false ∧ c ≠ Sql.backtick)
    (nonempty : words.toList ≠ []) :
    nameBehind? lead (lead ++ (Sql.quoteIdentifier name ++ (words ++ rest))) = some name := by
  rw [nameBehind?, String.toList_append, Text.after?_self, Option.bind_some, String.toList_append,
    String.toList_append]
  refine Sql.nameFront?_quoteIdentifier name ?_
  rwa [List.head?_append_of_ne_nil _ nonempty]

theorem intercalate_concat (separator : String) {texts : List String} (nonempty : texts ≠ [])
    (last : String) : separator.intercalate (texts ++ [last]) =
      separator.intercalate texts ++ separator ++ last := by
  induction texts with
  | nil => contradiction
  | cons text texts ih =>
    cases texts with
    | nil => simp [String.intercalate_cons_cons]
    | cons next texts =>
      rw [List.cons_append, List.cons_append, String.intercalate_cons_cons, ← List.cons_append,
        ih (List.cons_ne_nil _ _), String.intercalate_cons_cons]
      simp only [String.append_assoc]

/-- A creation states the name of the primary key, if the table has one. -/
theorem nameBehind?_createTable (target : Target) (t : Table) :
    nameBehind? (keyLead target t) (target.createTable t) =
      if t.primaryKey.isEmpty then none else some t.keyName := by
  unfold Target.createTable keyLead Target.keyConstraint? Table.keyName
  generalize target.mode.opening "TABLE" ++ " " ++ target.qualified t.name ++ " (\n  " = lead
  split
  · -- Behind the columns stands a line break, where a further line begins with a comma.
    rw [Option.toList_none, List.append_nil, nameBehind?]
    generalize ",\n  ".intercalate (t.fields.map Field.columnDefinition) = columns
    simp only [String.append_assoc, String.toList_append, Text.after?_append]
    rfl
  · rename_i some
    have columns : t.fields.map Field.columnDefinition ≠ [] := by
      intro none
      rw [List.map_eq_nil_iff] at none
      simp [Table.primaryKey, none] at some
    rw [Option.toList_some, intercalate_concat _ columns]
    generalize ",\n  ".intercalate (t.fields.map Field.columnDefinition) = columns
    have words : ",\n  CONSTRAINT " = ",\n  " ++ "CONSTRAINT " := rfl
    have read := fun rest => nameBehind?_append (lead ++ columns ++ ",\n  CONSTRAINT ")
      (ConstraintName.ofParts ["pk", t.name]) " PRIMARY KEY (" rest (by simp; decide) (by decide)
    simp only [words, String.append_assoc] at read ⊢
    exact read _

theorem nameBehind?_foreignKey {r : Reference} {keyTable : Table} {key : Field}
    {fallback : Option String} :
    nameBehind? ("ALTER TABLE " ++ target.qualified t.name ++ " ADD CONSTRAINT ")
        (target.foreignKey t f r keyTable key fallback) =
      some (((nonBlank? r.constraintName).or (nonBlank? fallback)).getD (t.foreignKeyName f)) := by
  unfold Target.foreignKey Table.foreignKeyName
  generalize "ALTER TABLE " ++ target.qualified t.name ++ " ADD CONSTRAINT " = lead
  simp only [String.append_assoc]
  exact nameBehind?_append lead _ _ _ (by simp; decide) (by decide)

/-- The foreign key of a field is stated under its name. -/
theorem bind_keyStatement? (consistent : p.Consistent) (target : Target) (member : t ∈ p.tables)
    (present : f ∈ t.fields) :
    ((p.keyStatement? target t f).bind fun s =>
      nameBehind? ("ALTER TABLE " ++ s.object ++ " ADD CONSTRAINT ") s.sql) =
        (p.foreignKey? t f).map (·.name) := by
  cases refers : f.reference with
  | none => simp [keyStatement?, foreignKey?, refers]
  | some r =>
    obtain ⟨s, found⟩ := exists_keyStatement? consistent target member present (by simp [refers])
    rw [found, foreignKey?, refers, Option.map_some, Option.map_some, Option.bind_some]
    simp only [keyStatement?, refers, Option.bind_eq_bind, Option.bind_some,
      Option.bind_eq_some_iff] at found
    obtain ⟨keyTable, -, key, -, done⟩ := found
    split at done <;> obtain rfl := Option.some_inj.mp done <;>
      exact nameBehind?_foreignKey

theorem flatMap_eq_of_mem {α β : Type} {f : α → List β} {x : α} {items : List α} (nodup : items.Nodup)
    (member : x ∈ items) (others : ∀ y ∈ items, y ≠ x → f y = []) : items.flatMap f = f x := by
  obtain ⟨before, after, rfl⟩ := List.append_of_mem member
  have apart := List.nodup_middle.mp nodup
  have none : ∀ part, part ⊆ before ++ after → part.flatMap f = [] := by
    intro part inside
    refine List.flatMap_eq_nil_iff.mpr fun y listed => others y ?_ ?_
    · have := inside listed
      simp only [List.mem_append, List.mem_cons] at this ⊢
      tauto
    · rintro rfl
      exact (List.nodup_cons.mp apart).1 (inside listed)
  rw [List.flatMap_append, List.flatMap_cons, none before (List.subset_append_left _ _),
    none after (List.subset_append_right _ _), List.nil_append, List.append_nil]

/-- The foreign keys that a script adds to a table are those of its fields. -/
theorem filter_object (names : p.nameCollisions = []) (perm : tables.Perm p.tables)
    (member : t ∈ p.tables) (target : Target) :
    (tables.flatMap (p.keyStatements target)).filter (fun s => s.object == target.qualified t.name) =
      p.keyStatements target t := by
  have object : ∀ u s, s ∈ p.keyStatements target u → s.object = target.qualified u.name := by
    intro u s stated
    obtain ⟨f, -, found⟩ := List.mem_filterMap.mp stated
    exact (keyStatement?_constrains found).2.1
  have distinct := tableNames_distinct names
  have inj : ∀ u ∈ p.tables, target.qualified u.name = target.qualified t.name → u = t := by
    intro u listed same
    have same := congrArg Text.asciiLowered same
    simp only [Target.qualified_eq, Text.asciiLowered_append, String.append_right_inj] at same
    exact List.inj_on_of_nodup_map distinct listed member (Sql.asciiLowered_quoteIdentifier_inj same)
  rw [List.filter_flatMap, flatMap_eq_of_mem
    (perm.nodup_iff.mpr (List.Nodup.of_map _ distinct)) (perm.mem_iff.mpr member)]
  · exact List.filter_eq_self.mpr fun s stated => by simp [object t s stated]
  · intro u listed other
    refine List.filter_eq_nil_iff.mpr fun s stated => ?_
    rw [object u s stated, beq_iff_eq]
    exact fun same => other (inj u (perm.mem_iff.mp listed) same)

/-- A creation with its tags holds no other kinds of statements. -/
theorem flatten_kinds {α : Type} {subjectOf : α → Statement.Subject} {items : List α}
    {blocks : List (List Statement.Content)} {kind : StatementKind}
    (each : List.Forall₂ (fun x => Creates (subjectOf x)) items blocks)
    (kinds : ∀ x, (subjectOf x).kind = kind) :
    ∀ s ∈ blocks.flatten, s.kind = kind ∨ s.kind = .setTag := by
  induction each with
  | nil => exact fun s member => nomatch member
  | @cons x _ _ _ first _ ih =>
    intro s member
    rw [List.flatten_cons, List.mem_append] at member
    refine member.elim (fun here => ?_) (ih s)
    obtain ⟨-, creation, tags, rfl, subject, tagging⟩ := first
    rcases List.mem_cons.mp here with rfl | tag
    · exact .inl ((congrArg Statement.Subject.kind subject).trans (kinds x))
    · exact .inr (tagging s tag).1

theorem filter_of_kinds {part : List Statement.Content} {kind : StatementKind} (wanted : StatementKind)
    (other : Statement.Content → Bool) (kinds : ∀ s ∈ part, s.kind = kind ∨ s.kind = .setTag)
    (differs : wanted ≠ kind ∧ wanted ≠ .setTag) :
    (part.filter fun s => s.kind == wanted && other s) = [] := by
  refine List.filter_eq_nil_iff.mpr fun s inside keeps => ?_
  have same := beq_iff_eq.mp (Bool.and_eq_true_iff.mp keeps).1
  exact (kinds s inside).elim (fun here => differs.1 (same.symm.trans here)) fun here =>
    differs.2 (same.symm.trans here)

/-- A table is created once. -/
theorem filter_creation (keyed : p.Keyed) (perm : tables.Perm p.tables) (member : t ∈ p.tables)
    (options : CompileOptions) (target : Target) :
    (tables.flatMap (tableStatements options target)).filter
        (fun s => s.kind == .createTable && s.entity == t.id) =
      [⟨t.id, .table, .createTable, target.qualified t.name, target.createTable t⟩] := by
  have tags : ∀ u, ∀ s ∈ (tableStatements options target u).tail, s.kind = .setTag := by
    intro u s tag
    obtain ⟨-, creation, tags, same, -, tagging⟩ := tableStatements_creates options target u
    rw [same] at tag
    exact (tagging s tag).1
  have each : ∀ u, (tableStatements options target u).filter
      (fun s => s.kind == .createTable && s.entity == t.id) =
        if u.id = t.id then
          [⟨u.id, .table, .createTable, target.qualified u.name, target.createTable u⟩] else [] := by
    intro u
    have none : (tableStatements options target u).tail.filter
        (fun s => s.kind == .createTable && s.entity == t.id) = [] :=
      List.filter_eq_nil_iff.mpr fun s tag => by simp [tags u s tag]
    rw [tableStatements, List.tail_cons] at none
    rw [tableStatements, List.filter_cons, none]
    simp
  rw [List.filter_flatMap, flatMap_eq_of_mem
    (perm.nodup_iff.mpr (List.Nodup.of_map _ keyed.tables)) (perm.mem_iff.mpr member), each,
    if_pos rfl]
  intro u listed other
  rw [each, if_neg]
  exact fun same =>
    other (List.inj_on_of_nodup_map keyed.tables (perm.mem_iff.mp listed) member same)

/-- The statements of a script that state the constraints of a table. -/
theorem filter_statements (compiled : p.compile options = .ok statements) (member : t ∈ p.tables) :
    ((statements.map (·.toContent)).filter fun s => s.kind == .createTable && s.entity == t.id) =
        [⟨t.id, .table, .createTable, (p.target options).qualified t.name,
          (p.target options).createTable t⟩] ∧
      ((statements.map (·.toContent)).filter fun s =>
        s.kind == .addConstraint && s.object == (p.target options).qualified t.name) =
          p.keyStatements (p.target options) t := by
  obtain ⟨none, tables, views, ordered, created, rfl⟩ := compile_eq_ok_iff.mp compiled
  have compilable := problems_eq_nil_iff.mp none
  have perm := (orderedTables_spec compilable ordered).1
  have tableKinds := flatten_kinds
    (forall₂_map (tableStatements_creates options (p.target options)) tables) fun _ => rfl
  have keyKinds : ∀ s ∈ tables.flatMap (p.keyStatements (p.target options)),
      s.kind = .addConstraint ∨ s.kind = .setTag := fun s inside =>
    .inl (kind_of_mem_keyStatements inside)
  have metricKinds := flatten_kinds
    (created.imp fun _ _ => metricViewStatements_creates) fun _ => rfl
  have viewKinds := flatten_kinds
    (forall₂_map (traditionalViewStatements_creates p options (p.target options))
      p.traditionalViews) fun _ => rfl
  rw [← List.flatMap_def] at tableKinds viewKinds
  rw [Statement.map_toContent_numbered]
  constructor
  · rw [List.filter_append, List.filter_append, List.filter_append,
      filter_creation compilable.consistent.toKeyed perm member,
      filter_of_kinds .createTable _ keyKinds (by decide),
      filter_of_kinds .createTable _ metricKinds (by decide),
      filter_of_kinds .createTable _ viewKinds (by decide)]
    rfl
  · have keys : ((tables.flatMap (p.keyStatements (p.target options))).filter fun s =>
        s.kind == .addConstraint && s.object == (p.target options).qualified t.name) =
          p.keyStatements (p.target options) t := by
      rw [← filter_object compilable.names perm member]
      exact List.filter_congr fun s inside => by simp [kind_of_mem_keyStatements inside]
    rw [List.filter_append, List.filter_append, List.filter_append, keys,
      filter_of_kinds .addConstraint _ tableKinds (by decide),
      filter_of_kinds .addConstraint _ metricKinds (by decide),
      filter_of_kinds .addConstraint _ viewKinds (by decide)]
    simp

/-- The names that a script states for a table are those of its constraints. -/
theorem statedNames_eq (compiled : p.compile options = .ok statements) (member : t ∈ p.tables) :
    statedNames (p.target options) statements t = (p.constraints t).map (·.name) := by
  have compilable := problems_eq_nil_iff.mp (compile_eq_ok_iff.mp compiled).1
  obtain ⟨creation, keys⟩ := filter_statements compiled member
  rw [statedNames, creation, keys, constraints, List.map_append]
  refine congrArg₂ _ ?_ ?_
  · simp only [List.filterMap_cons, List.filterMap_nil, nameBehind?_createTable]
    cases t.primaryKey.isEmpty <;> rfl
  · rw [keyStatements, List.filterMap_filterMap, List.map_filterMap]
    exact List.filterMap_congr fun f present =>
      bind_keyStatement? compilable.consistent _ member present

/-! ### Clashes -/

theorem words_foreignKeyName (t : Table) (f g : Field) :
    t.foreignKeyName f = t.foreignKeyName g ↔
      ConstraintName.words f.name.toList = ConstraintName.words g.name.toList := by
  rw [Table.foreignKeyName, Table.foreignKeyName, ConstraintName.ofParts_eq_iff]
  simp

theorem keyName_ne_foreignKeyName (t : Table) (f : Field) : t.keyName ≠ t.foreignKeyName f := by
  rw [Table.keyName, Table.foreignKeyName, ne_eq, ConstraintName.ofParts_eq_iff]
  have pk : ConstraintName.words "pk".toList = [['p', 'k']] := by decide
  have fk : ConstraintName.words "fk".toList = [['f', 'k']] := by decide
  simp only [List.flatMap_cons]
  rw [pk, fk, List.singleton_append, List.singleton_append]
  exact fun same => absurd (List.cons.inj same).1 (by decide)

theorem foreignKey?_eq_some_iff {c : Constraint} : p.foreignKey? t f = some c ↔
    (p.needsName t f = true ∧ c = ⟨t.foreignKeyName f, false⟩) ∨
      ∃ r name, f.reference = some r ∧ p.givenName? t f r = some name ∧ c = ⟨name, true⟩ := by
  rw [needsName, foreignKey?]
  cases refers : f.reference with
  | none => simp
  | some r =>
    cases given : p.givenName? t f r with
    | none => simp [given, eq_comm (b := c)]
    | some name => simp [given, eq_comm (b := c)]

/-- Foreign keys of a table that do not clash. -/
theorem apart_foreignKeys :
    (t.fields.filterMap (p.foreignKey? t)).Pairwise Constraint.Apart ↔
      ((t.fields.filter (p.needsName t)).map fun f => ConstraintName.words f.name.toList).Nodup ∧
        ∀ f ∈ t.fields, ∀ r name, f.reference = some r → p.givenName? t f r = some name →
          ∀ other ∈ t.fields, p.needsName t other = true → name ≠ t.foreignKeyName other := by
  rw [List.pairwise_filterMap, List.Nodup, List.pairwise_map, List.pairwise_filter]
  constructor
  · intro apart
    refine ⟨apart.imp fun {f g} clash needsF needsG same => ?_, ?_⟩
    · have both := clash _ (foreignKey?_eq_some_iff.mpr (.inl ⟨needsF, rfl⟩)) _
        (foreignKey?_eq_some_iff.mpr (.inl ⟨needsG, rfl⟩)) ((words_foreignKeyName t f g).mpr same)
      exact Bool.false_ne_true both.1
    · intro f present r name refers given other listed needs same
      have known := foreignKey?_eq_some_iff.mpr (.inr ⟨r, name, refers, given, rfl⟩)
      have made := foreignKey?_eq_some_iff.mpr (.inl ⟨needs, rfl⟩)
      have : Std.Symm fun f g : Field => ∀ a, p.foreignKey? t f = some a →
          ∀ b, p.foreignKey? t g = some b → a.Apart b :=
        ⟨fun f g apart b known a other same => (apart a other b known same.symm).symm⟩
      have differ : f ≠ other := by
        rintro rfl
        rw [known] at made
        simp at made
      exact Bool.false_ne_true (apart.forall present listed differ _ known _ made same).2
  · rintro ⟨words, given⟩
    refine words.imp_of_mem fun {f g} present listed apart a first b second same => ?_
    rcases foreignKey?_eq_some_iff.mp first with ⟨needsF, rfl⟩ | ⟨r, name, refers, givenF, rfl⟩ <;>
      rcases foreignKey?_eq_some_iff.mp second with ⟨needsG, rfl⟩ | ⟨r', name', refers', givenG, rfl⟩
    · exact absurd ((words_foreignKeyName t f g).mp same) (apart needsF needsG)
    · exact absurd same.symm (given g listed r' name' refers' givenG f present needsF)
    · exact absurd same (given f present r name refers givenF g listed needsG)
    · exact ⟨rfl, rfl⟩

theorem apart_constraints_iff : (p.constraints t).Pairwise Constraint.Apart ↔ p.NamesApart t := by
  have own : (if t.primaryKey.isEmpty then [] else [(⟨t.keyName, false⟩ : Constraint)]).Pairwise
      Constraint.Apart := by
    split <;> simp
  rw [constraints, List.pairwise_append, apart_foreignKeys]
  constructor
  · rintro ⟨-, ⟨words, given⟩, key⟩
    refine ⟨words, fun f present r name refers known => ⟨fun some same => ?_,
      given f present r name refers known⟩⟩
    have listed := List.mem_filterMap.mpr
      ⟨f, present, foreignKey?_eq_some_iff.mpr (.inr ⟨r, name, refers, known, rfl⟩)⟩
    have both := key ⟨t.keyName, false⟩ (by simp [some]) _ listed same.symm
    exact Bool.false_ne_true both.1
  · intro apart
    refine ⟨own, ⟨apart.words, fun f present r name refers known =>
      (apart.given f present r name refers known).2⟩, fun a first b second same => ?_⟩
    obtain ⟨some, rfl⟩ : t.primaryKey ≠ [] ∧ a = ⟨t.keyName, false⟩ := by
      split at first
      · cases first
      · rename_i some
        exact ⟨by simpa using some, List.mem_singleton.mp first⟩
    obtain ⟨f, present, known⟩ := List.mem_filterMap.mp second
    rcases foreignKey?_eq_some_iff.mp known with ⟨-, rfl⟩ | ⟨r, name, refers, given, rfl⟩
    · exact absurd same (keyName_ne_foreignKeyName t f)
    · exact absurd same.symm ((apart.given f present r name refers given).1 some)

/-- The names that a compiled script states for a table, and when they clash: exactly if two fields
whose keys need a name have the same words in their names, or a name that was given is one that was
made. -/
theorem compile_constraints_apart_iff (compiled : p.compile options = .ok statements)
    (member : t ∈ p.tables) :
    statedNames (p.target options) statements t = (p.constraints t).map (·.name) ∧
      ((p.constraints t).Pairwise Constraint.Apart ↔ p.NamesApart t) :=
  ⟨statedNames_eq compiled member, apart_constraints_iff⟩

/-- Sales with two foreign keys to the regions, the first of which may be given a name. -/
def sales (first second : String) (given : Option String) : Table :=
  { Table.plain "T" "sales" newYear with
    fields :=
      [ (Field.plain "S" "id" .int).asPrimaryKey,
        (Field.plain "M" first .int).attach ⟨"R", "K", given, .noAction, .noAction⟩ .independent,
        (Field.plain "N" second .int).referring ⟨"R", "K"⟩ ] }

def twoKeys (first second : String) (given : Option String) : Project :=
  { Project.empty "P" "shop" "main" "sales" newYear with
    tables :=
      [ { Table.plain "R" "regions" newYear with
          fields := [(Field.plain "K" "id" .int).asPrimaryKey] },
        sales first second given ] }

/-- A given name that is none of the made ones. -/
theorem twoKeys_apart : ∃ statements,
    (twoKeys "region" "店" (some "origin")).compile .standard = .ok statements ∧
      sales "region" "店" (some "origin") ∈
        (twoKeys "region" "店" (some "origin")).tables ∧
      statedNames ((twoKeys "region" "店" (some "origin")).target .standard) statements
        (sales "region" "店" (some "origin")) =
          ["pk_sales", "origin", "fk_sales"] ∧
      ((twoKeys "region" "店" (some "origin")).constraints
        (sales "region" "店" (some "origin"))).Pairwise Constraint.Apart := by
  have compilable : (twoKeys "region" "店" (some "origin")).Compilable :=
    problems_eq_nil_iff.mp (by decide +kernel)
  obtain ⟨statements, compiled⟩ := compilable.compiles .standard
  have member : sales "region" "店" (some "origin") ∈
      (twoKeys "region" "店" (some "origin")).tables := by
    simp [twoKeys]
  obtain ⟨stated, apart⟩ := compile_constraints_apart_iff compiled member
  refine ⟨statements, compiled, member, stated.trans (by decide +kernel), apart.mpr ⟨?_, ?_⟩⟩
  · decide +kernel
  · intro f present r name refers given
    simp only [sales, List.mem_cons, List.not_mem_nil, or_false] at present
    rcases present with rfl | rfl | rfl
    · cases refers
    · obtain rfl := Option.some.inj refers
      obtain rfl : "origin" = name := Option.some.inj given
      exact ⟨fun _ => by decide +kernel, by decide +kernel⟩
    · obtain rfl := Option.some.inj refers
      cases given

/-- Fields without a word of ASCII letters all have the same name made for their keys. -/
theorem twoKeys_clash : ∃ statements,
    (twoKeys "地区" "店" none).compile .standard = .ok statements ∧
      sales "地区" "店" none ∈ (twoKeys "地区" "店" none).tables ∧
      statedNames ((twoKeys "地区" "店" none).target .standard) statements
        (sales "地区" "店" none) = ["pk_sales", "fk_sales", "fk_sales"] ∧
      ∀ c ∈ (twoKeys "地区" "店" none).constraints (sales "地区" "店" none),
        c.given = false := by
  have compilable : (twoKeys "地区" "店" none).Compilable :=
    problems_eq_nil_iff.mp (by decide +kernel)
  obtain ⟨statements, compiled⟩ := compilable.compiles .standard
  have member : sales "地区" "店" none ∈ (twoKeys "地区" "店" none).tables := by
    simp [twoKeys]
  exact ⟨statements, compiled, member, (statedNames_eq compiled member).trans (by decide +kernel),
    by decide +kernel⟩

end Project
end LakeSchema
