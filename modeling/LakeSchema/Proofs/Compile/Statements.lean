import LakeSchema.Proofs.Compile.TableOrder
import LakeSchema.Proofs.Sql.Identifier

/-!
# What a script consists of

`Arranged` says what the statements of a script are and how they stand: one creation for every table
and view, one constraint for every foreign key, tables before what depends on them, and the names of
what is created apart from each other. Every script that is compiled is arranged
(`compile_arranged`).
-/

namespace LakeSchema

variable {p : Project} {options : CompileOptions} {target : Target}

/-- Whether a statement creates a table or a view. -/
def StatementKind.creates : StatementKind → Bool
  | createTable | createView | createMetricView => true
  | setTag | addConstraint => false

/-- Tables and their tags come first, then foreign keys, then views and their tags. -/
def StatementKind.phase : StatementKind → EntityKind → Nat
  | createTable, _ | setTag, .table => 0
  | addConstraint, _ => 1
  | _, _ => 2

namespace Statement

def Content.phase (s : Content) : Nat :=
  s.kind.phase s.entityKind

/-- What a statement does, for which entity and to which object. -/
structure Subject where
  kind : StatementKind
  entityKind : EntityKind
  entity : String
  object : String
deriving DecidableEq

def Content.subject (s : Content) : Subject :=
  ⟨s.kind, s.entityKind, s.entity, s.object⟩

end Statement

namespace Project

/-- The statement ties a field to the key that it refers to. -/
def Constrains (p : Project) (target : Target) (entry : Table × Field)
    (s : Statement.Content) : Prop :=
  s.kind = .addConstraint ∧ s.object = target.qualified entry.1.name ∧
    ∃ r keyTable key name, entry.2.reference = some r ∧ p.table? r.table = some keyTable ∧
      keyTable.field? r.field = some key ∧
        s.sql = target.foreignKey entry.1 entry.2 r keyTable key name

/-- The fields of tables that refer to a key, with their tables. -/
def referringFields (tables : List Table) : List (Table × Field) :=
  tables.flatMap fun t => (t.fields.filter (·.reference.isSome)).map fun f => (t, f)

/-- What is created: tables as they are listed, then views in project order. -/
def creations (p : Project) (target : Target) (tables : List Table) : List Statement.Subject :=
  tables.map (fun t => ⟨.createTable, .table, t.id, target.qualified t.name⟩) ++
    p.metricViews.map (fun v => ⟨.createMetricView, .metricView, v.id, target.qualified v.name⟩) ++
    p.traditionalViews.map
      fun v => ⟨.createView, .traditionalView, v.id, target.qualified v.name⟩

/-- The statements of a script that creates the tables in a given order. -/
structure Arranged (p : Project) (target : Target) (tables : List Table)
    (statements : List Statement) : Prop where
  complete : tables.Perm p.tables
  dependencies : ∀ before t after, tables = before ++ t :: after →
    ∀ other ∈ p.tables, p.Requires t other → other ∈ before
  created : (statements.filter (·.kind.creates)).map (·.subject) = p.creations target tables
  names : ((statements.filter (·.kind.creates)).map fun s => Text.asciiLowered s.object).Nodup
  constrained : List.Forall₂ (p.Constrains target) (referringFields tables)
    ((statements.filter (·.kind == .addConstraint)).map (·.toContent))
  phases : statements.Pairwise fun earlier later => earlier.phase ≤ later.phase
  numbered : statements.map (·.sequence) = List.range' 1 statements.length

/-! ### Creations -/

/-- A creation, followed by the statements that tag what is created. -/
def Creates (subject : Statement.Subject) (block : List Statement.Content) : Prop :=
  subject.kind.creates ∧ ∃ s tags, block = s :: tags ∧ s.subject = subject ∧
    ∀ tag ∈ tags, tag.kind = .setTag ∧ tag.entityKind = subject.entityKind

section Blocks

variable {subject : Statement.Subject} {block : List Statement.Content}

theorem Creates.created (creates : Creates subject block) :
    (block.filter (·.kind.creates)).map (·.subject) = [subject] := by
  obtain ⟨kind, s, tags, rfl, rfl, tagging⟩ := creates
  have none : tags.filter (·.kind.creates) = [] := by
    refine List.filter_eq_nil_iff.mpr fun tag member => ?_
    simp [(tagging tag member).1, StatementKind.creates]
  have head : s.kind.creates := kind
  rw [List.filter_cons, if_pos head, none, List.map_singleton]

theorem Creates.constrained (creates : Creates subject block) :
    block.filter (·.kind == .addConstraint) = [] := by
  obtain ⟨kind, s, tags, rfl, rfl, tagging⟩ := creates
  refine List.filter_eq_nil_iff.mpr fun other member constraint => ?_
  rcases List.mem_cons.mp member with rfl | tag
  · rw [Statement.Content.subject, beq_iff_eq.mp constraint] at kind
    contradiction
  · simp [(tagging other tag).1] at constraint

theorem Creates.phase (creates : Creates subject block)
    (same : StatementKind.setTag.phase subject.entityKind = subject.kind.phase subject.entityKind) :
    ∀ s ∈ block, s.phase = subject.kind.phase subject.entityKind := by
  obtain ⟨_, s, tags, rfl, rfl, tagging⟩ := creates
  intro other member
  rcases List.mem_cons.mp member with rfl | tag
  · rfl
  · obtain ⟨kind, entityKind⟩ := tagging other tag
    rw [Statement.Content.phase, kind, entityKind, same]

variable {α : Type} {subjectOf : α → Statement.Subject} {items : List α}
  {blocks : List (List Statement.Content)}

theorem flatten_created (each : List.Forall₂ (fun x => Creates (subjectOf x)) items blocks) :
    (blocks.flatten.filter (·.kind.creates)).map (·.subject) = items.map subjectOf := by
  induction each with
  | nil => rfl
  | cons first _ ih =>
    rw [List.flatten_cons, List.filter_append, List.map_append, first.created, ih]
    rfl

theorem flatten_constrained (each : List.Forall₂ (fun x => Creates (subjectOf x)) items blocks) :
    blocks.flatten.filter (·.kind == .addConstraint) = [] := by
  induction each with
  | nil => rfl
  | cons first _ ih => rw [List.flatten_cons, List.filter_append, first.constrained, ih]; rfl

theorem flatten_phase {n : Nat} (each : List.Forall₂ (fun x => Creates (subjectOf x)) items blocks)
    (tags : ∀ x, StatementKind.setTag.phase (subjectOf x).entityKind = n)
    (creation : ∀ x, (subjectOf x).kind.phase (subjectOf x).entityKind = n) :
    ∀ s ∈ blocks.flatten, s.phase = n := by
  induction each with
  | nil => simp
  | @cons x _ _ _ first _ ih =>
    intro s member
    rw [List.flatten_cons, List.mem_append] at member
    rcases member with here | later
    · rw [first.phase ((tags x).trans (creation x).symm) s here, creation]
    · exact ih s later

end Blocks

theorem tableStatements_creates (options : CompileOptions) (target : Target) (t : Table) :
    Creates ⟨.createTable, .table, t.id, target.qualified t.name⟩
      (tableStatements options target t) := by
  refine ⟨rfl, _, _, rfl, rfl, fun tag member => ?_⟩
  split at member
  · obtain ⟨sql, _, rfl⟩ := List.mem_map.mp member
    exact ⟨rfl, rfl⟩
  · contradiction

theorem viewTagStatements_tag {kind : EntityKind} {id name : String} {tags : TagMap}
    {logicalName : Option String} {tag : Statement.Content}
    (member : tag ∈ viewTagStatements options target kind id name tags logicalName) :
    tag.kind = .setTag ∧ tag.entityKind = kind := by
  unfold viewTagStatements at member
  split at member
  · obtain ⟨sql, _, rfl⟩ := List.mem_map.mp member
    exact ⟨rfl, rfl⟩
  · contradiction

theorem metricViewStatements_creates {v : MetricView} {block : List Statement.Content}
    (created : p.metricViewStatements options target v = .ok block) :
    Creates ⟨.createMetricView, .metricView, v.id, target.qualified v.name⟩ block := by
  obtain ⟨sql, _, done⟩ := bind_eq_ok_iff.mp created
  obtain rfl := Except.ok.inj done
  exact ⟨rfl, _, _, rfl, rfl, fun _ => viewTagStatements_tag⟩

theorem traditionalViewStatements_creates (p : Project) (options : CompileOptions) (target : Target)
    (v : TraditionalView) :
    Creates ⟨.createView, .traditionalView, v.id, target.qualified v.name⟩
      (p.traditionalViewStatements options target v) :=
  ⟨rfl, _, _, rfl, rfl, fun _ => viewTagStatements_tag⟩

/-! ### Constraints -/

theorem keyStatement?_constrains {t : Table} {f : Field} {s : Statement.Content}
    (found : p.keyStatement? target t f = some s) : p.Constrains target (t, f) s := by
  simp only [keyStatement?, Option.bind_eq_bind, Option.bind_eq_some_iff] at found
  obtain ⟨r, refers, keyTable, located, key, present, done⟩ := found
  split at done <;> obtain rfl := Option.some_inj.mp done <;>
    exact ⟨rfl, rfl, r, keyTable, key, _, refers, located, present, rfl⟩

/-- In a consistent project every reference has the key that the constraint needs. -/
theorem exists_keyStatement? (consistent : p.Consistent) (target : Target) {t : Table} {f : Field}
    (member : t ∈ p.tables) (present : f ∈ t.fields) (refers : f.reference.isSome) :
    ∃ s, p.keyStatement? target t f = some s := by
  obtain ⟨r, known⟩ := Option.isSome_iff_exists.mp refers
  obtain ⟨_, there⟩ := consistent.references t member f present r known
  obtain ⟨key, found⟩ := Option.isSome_iff_exists.mp ((has_iff_field? consistent.toKeyed).mp there)
  obtain ⟨keyTable, located, inside⟩ := Option.bind_eq_some_iff.mp found
  have located : p.table? r.table = some keyTable := located
  have inside : keyTable.field? r.field = some key := inside
  rw [← Option.isSome_iff_exists, keyStatement?, known]
  simp only [Option.bind_eq_bind, Option.bind_some, located, inside]
  split <;> rfl

theorem flatMap_keyStatements (p : Project) (target : Target) (tables : List Table) :
    tables.flatMap (p.keyStatements target) =
      (referringFields tables).filterMap fun entry => p.keyStatement? target entry.1 entry.2 := by
  rw [referringFields, List.filterMap_flatMap]
  refine List.flatMap_congr fun t _ => ?_
  rw [List.filterMap_map, List.filterMap_filter, keyStatements]
  refine List.filterMap_congr fun f _ => ?_
  cases refers : f.reference <;> simp [keyStatement?, refers]

theorem forall₂_filterMap {α β : Type} {f : α → Option β} {items : List α}
    (each : ∀ x ∈ items, ∃ y, f x = some y) :
    List.Forall₂ (fun x y => f x = some y) items (items.filterMap f) := by
  induction items with
  | nil => exact .nil
  | cons x rest ih =>
    obtain ⟨y, found⟩ := each x List.mem_cons_self
    rw [List.filterMap_cons_some found]
    exact .cons found (ih fun x member => each x (List.mem_cons_of_mem _ member))

/-- The constraints of tables, one for each of their fields that refers to a key. -/
theorem keyStatements_constrain (consistent : p.Consistent) (target : Target) {tables : List Table}
    (subset : tables ⊆ p.tables) :
    List.Forall₂ (p.Constrains target) (referringFields tables)
      (tables.flatMap (p.keyStatements target)) := by
  have each : ∀ entry ∈ referringFields tables, ∃ s,
      p.keyStatement? target entry.1 entry.2 = some s := by
    intro entry member
    obtain ⟨t, inside, listed⟩ := List.mem_flatMap.mp member
    obtain ⟨f, referring, rfl⟩ := List.mem_map.mp listed
    obtain ⟨present, refers⟩ := List.mem_filter.mp referring
    exact exists_keyStatement? consistent target (subset inside) present refers
  rw [flatMap_keyStatements]
  refine (forall₂_filterMap each).imp fun entry s found => ?_
  exact keyStatement?_constrains (t := entry.1) (f := entry.2) found

theorem kind_of_mem_keyStatements {tables : List Table} {s : Statement.Content}
    (member : s ∈ tables.flatMap (p.keyStatements target)) : s.kind = .addConstraint := by
  rw [flatMap_keyStatements] at member
  obtain ⟨entry, _, found⟩ := List.mem_filterMap.mp member
  obtain ⟨kind, _⟩ : p.Constrains target entry s := keyStatement?_constrains found
  exact kind

/-! ### Names -/

theorem nameCollision_eq_nil_iff (earlier : List (String × String)) (entry : String × String) :
    nameCollision earlier entry = [] ↔
      (∀ other ∈ earlier, Text.lowered other.2 ≠ Text.lowered entry.2) ∧ True := by
  unfold nameCollision
  split
  · rename_i other found
    have same : Text.lowered other.2 = Text.lowered entry.2 := by simpa using List.find?_some found
    have earlier : other ∈ earlier := List.mem_reverse.mp (List.mem_of_find?_eq_some found)
    simp only [List.cons_ne_nil, and_true, false_iff, not_forall]
    exact ⟨other, earlier, not_not.mpr same⟩
  · rename_i none
    simpa using List.find?_eq_none.mp none

theorem nameCollisions_eq_nil_iff :
    p.nameCollisions = [] ↔ (p.createdNames.map fun entry => Text.lowered entry.2).Nodup := by
  rw [nameCollisions, withEarlier_eq_nil_iff nameCollision_eq_nil_iff]
  exact and_iff_left fun _ _ => trivial

/-- Names of one lower case form collide, so the created objects have different names. -/
theorem createdNames_distinct (none : p.nameCollisions = []) (target : Target) :
    (p.createdNames.map fun entry => Text.asciiLowered (target.qualified entry.2)).Nodup := by
  have distinct := nameCollisions_eq_nil_iff.mp none
  rw [List.Nodup, List.pairwise_map] at distinct ⊢
  exact distinct.imp fun apart same => apart (Target.lowered_eq_of_qualified same)

/-- The names of tables differ by more than the case of ASCII letters. -/
theorem tableNames_distinct (none : p.nameCollisions = []) :
    (p.tables.map fun t => Text.asciiLowered t.name).Nodup := by
  have distinct := nameCollisions_eq_nil_iff.mp none
  rw [createdNames, List.append_assoc, List.map_append, List.map_map] at distinct
  have tables := (List.nodup_append.mp distinct).1
  rw [List.Nodup, List.pairwise_map] at tables ⊢
  exact tables.imp fun apart same => apart (Text.lowered_eq_of_asciiLowered_eq same)

theorem creations_perm {tables : List Table} (perm : tables.Perm p.tables) :
    ((p.creations target tables).map fun s => Text.asciiLowered s.object).Perm
      (p.createdNames.map fun entry => Text.asciiLowered (target.qualified entry.2)) := by
  simp only [creations, createdNames, List.map_append, List.map_map]
  exact ((perm.map _).append_right _).append_right _

/-! ### Scripts -/

/-- The phases of the statements ascend up to `n`. -/
def Ascends (n : Nat) (statements : List Statement.Content) : Prop :=
  (statements.Pairwise fun earlier later => earlier.phase ≤ later.phase) ∧
    ∀ s ∈ statements, s.phase ≤ n

theorem Ascends.append {m n : Nat} {first second : List Statement.Content} (ascends : Ascends m first)
    (step : m ≤ n) (same : ∀ s ∈ second, s.phase = n) : Ascends n (first ++ second) := by
  obtain ⟨ordered, bounded⟩ := ascends
  refine ⟨List.pairwise_append.mpr ⟨ordered, ?_, fun a early b late => ?_⟩, fun s member => ?_⟩
  · exact List.pairwise_of_forall_mem_list fun a left b right => by rw [same a left, same b right]
  · exact (same b late).symm ▸ (bounded a early).trans step
  · rcases List.mem_append.mp member with early | late
    · exact (bounded s early).trans step
    · exact (same s late).le

theorem forall₂_map {α β : Type} {R : α → β → Prop} {f : α → β} (each : ∀ x, R x (f x))
    (items : List α) : List.Forall₂ R items (items.map f) :=
  List.forall₂_map_right_iff.mpr (List.forall₂_same.mpr fun x _ => each x)

/-- Scripts are arranged that consist of table creations in order, their constraints, and the
creations of views. -/
theorem arranged_of_parts {tables : List Table} {keys : List Statement.Content}
    {tableBlocks metricBlocks viewBlocks : List (List Statement.Content)} (names : p.nameCollisions = [])
    (perm : tables.Perm p.tables)
    (dependencies : ∀ before t after, tables = before ++ t :: after →
      ∀ u ∈ p.tables, p.Requires t u → u ∈ before)
    (createTables : List.Forall₂ (fun t => Creates
      ⟨.createTable, .table, t.id, target.qualified t.name⟩) tables tableBlocks)
    (constrain : List.Forall₂ (p.Constrains target) (referringFields tables) keys)
    (constraints : ∀ s ∈ keys, s.kind = .addConstraint)
    (createMetricViews : List.Forall₂ (fun v => Creates
      ⟨.createMetricView, .metricView, v.id, target.qualified v.name⟩) p.metricViews metricBlocks)
    (createViews : List.Forall₂ (fun v => Creates
      ⟨.createView, .traditionalView, v.id, target.qualified v.name⟩) p.traditionalViews
        viewBlocks) :
    p.Arranged target tables (Statement.numbered
      (tableBlocks.flatten ++ keys ++ metricBlocks.flatten ++ viewBlocks.flatten)) := by
  generalize whole : tableBlocks.flatten ++ keys ++ metricBlocks.flatten ++ viewBlocks.flatten =
    contents
  have created : ((Statement.numbered contents).filter (·.kind.creates)).map (·.subject) =
      p.creations target tables := by
    have none : keys.filter (·.kind.creates) = [] :=
      List.filter_eq_nil_iff.mpr fun s member => by simp [constraints s member, StatementKind.creates]
    rw [← Statement.map_filter_numbered (·.kind.creates) (·.subject), ← whole]
    simp only [List.filter_append, List.map_append, flatten_created createTables, none,
      flatten_created createMetricViews, flatten_created createViews, List.append_nil]
    rfl
  refine ⟨perm, dependencies, created, ?_, ?_, ?_, ?_⟩
  case refine_1 =>
    have objects := congrArg (List.map fun s => Text.asciiLowered s.object) created
    rw [List.map_map] at objects
    exact objects ▸ (creations_perm perm).nodup_iff.mpr (createdNames_distinct names target)
  case refine_2 =>
    have all : keys.filter (·.kind == .addConstraint) = keys :=
      List.filter_eq_self.mpr fun s member => beq_iff_eq.mpr (constraints s member)
    rw [← Statement.map_filter_numbered (·.kind == .addConstraint) fun s => s, List.map_id',
      ← whole]
    simpa only [List.filter_append, flatten_constrained createTables, all,
      flatten_constrained createMetricViews, flatten_constrained createViews, List.append_nil,
      List.nil_append] using constrain
  case refine_3 =>
    have start : Ascends 0 [] := ⟨.nil, by simp⟩
    have constraint : ∀ s ∈ keys, s.phase = 1 := fun s member => by
      rw [Statement.Content.phase, constraints s member]
      rfl
    have ascends := (((start.append (Nat.le_refl 0)
      (flatten_phase createTables (fun _ => rfl) fun _ => rfl)).append (Nat.zero_le 1)
        constraint).append (Nat.le_succ 1)
          (flatten_phase createMetricViews (fun _ => rfl) fun _ => rfl)).append (Nat.le_refl 2)
            (flatten_phase createViews (fun _ => rfl) fun _ => rfl)
    obtain ⟨ordered, _⟩ := ascends
    rwa [List.nil_append, whole, ← Statement.map_toContent_numbered contents,
      List.pairwise_map] at ordered
  case refine_4 =>
    rw [Statement.map_sequence_numbered, Statement.length_numbered]

/-- The statements of a compiled project are arranged. -/
theorem compile_arranged {statements : List Statement}
    (compiled : p.compile options = .ok statements) :
    ∃ tables, p.Arranged (p.target options) tables statements := by
  obtain ⟨none, tables, views, ordered, created, rfl⟩ := compile_eq_ok_iff.mp compiled
  have compilable := problems_eq_nil_iff.mp none
  obtain ⟨perm, dependencies⟩ := orderedTables_spec compilable ordered
  rw [List.flatMap_def (f := tableStatements _ _),
    List.flatMap_def (f := p.traditionalViewStatements _ _)]
  refine ⟨tables, arranged_of_parts compilable.names perm dependencies ?_ ?_ ?_ ?_ ?_⟩
  · exact forall₂_map (tableStatements_creates options (p.target options)) tables
  · exact keyStatements_constrain compilable.consistent (p.target options) perm.subset
  · exact fun s => kind_of_mem_keyStatements
  · exact created.imp fun _ _ => metricViewStatements_creates
  · exact forall₂_map (traditionalViewStatements_creates p options (p.target options)) _

/-- The chain of keys with a metric view and a plain view of sales. -/
def salesViews : Project :=
  { keyChain with
    metricViews := [.plain "V" "sales_metrics" "T" newYear]
    traditionalViews := [.plain "W" "all_sales" "SELECT id FROM sales" newYear] }

theorem salesViews_compilable : salesViews.Compilable :=
  problems_eq_nil_iff.mp (by decide)

theorem salesViews_arranged :
    ∃ statements tables, salesViews.compile .standard = .ok statements ∧
      salesViews.Arranged (salesViews.target .standard) tables statements := by
  obtain ⟨statements, compiled⟩ := salesViews_compilable.compiles .standard
  obtain ⟨tables, arranged⟩ := compile_arranged compiled
  exact ⟨statements, tables, compiled, arranged⟩

end Project
end LakeSchema
