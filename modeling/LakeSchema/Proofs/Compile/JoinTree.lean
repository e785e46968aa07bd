import LakeSchema.Proofs.Compile.Compilation
import Mathlib.Data.List.Forall2

/-!
# Joins of metric views

The joins of a metric view form trees of any depth, over which two recursions run: one collects the
tables that the view reads, the other resolves the joins. In a project without problems they agree
(`definition_resolved`): every joined table is found, and its qualified name is what is joined.
-/

namespace LakeSchema

variable {p : Project} {target : Target} {v : MetricView} {id : String} {seen ids : List String}

/-! ### Tables that a view reads -/

/-- A join is one of the given joins or nested in one of them, at any depth. -/
inductive ViewJoin.Within (join : ViewJoin) : List ViewJoin → Prop
  | here {joins : List ViewJoin} (member : join ∈ joins) : Within join joins
  | nested {outer : ViewJoin} {joins : List ViewJoin} (member : outer ∈ joins)
      (deeper : Within join outer.joins) : Within join joins

namespace ViewJoin

variable {join : ViewJoin} {joins : List ViewJoin}

theorem mem_tables_iff : id ∈ join.tables ↔ join.tableId = some id ∨ id ∈ tablesOf join.joins := by
  obtain ⟨_, _, tableId, _, _, _, _, joins⟩ := join
  rw [tables, List.mem_append, Option.mem_toList]

theorem mem_tablesOf_iff : id ∈ tablesOf joins ↔ ∃ join ∈ joins, id ∈ join.tables := by
  induction joins with
  | nil => simp [tablesOf]
  | cons join joins ih => rw [tablesOf, List.mem_append, ih, List.exists_mem_cons_iff]

theorem Within.mem_tablesOf (within : Within join joins) (joined : join.tableId = some id) :
    id ∈ tablesOf joins := by
  induction within with
  | here member => exact mem_tablesOf_iff.mpr ⟨join, member, mem_tables_iff.mpr (.inl joined)⟩
  | nested member _ ih => exact mem_tablesOf_iff.mpr ⟨_, member, mem_tables_iff.mpr (.inr ih)⟩

theorem Within.subset {others : List ViewJoin} (within : Within join joins) (all : joins ⊆ others) :
    Within join others := by
  cases within with
  | here member => exact .here (all member)
  | nested member deeper => exact .nested (all member) deeper

mutual

theorem exists_of_mem_tables : (outer : ViewJoin) → id ∈ outer.tables →
    outer.tableId = some id ∨ ∃ join, Within join outer.joins ∧ join.tableId = some id
  | ⟨_, _, _, _, _, _, _, joins⟩, member =>
    (mem_tables_iff.mp member).imp_right (exists_of_mem_tablesOf joins)

theorem exists_of_mem_tablesOf : (joins : List ViewJoin) → id ∈ tablesOf joins →
    ∃ join, Within join joins ∧ join.tableId = some id
  | outer :: joins, member => by
    rcases List.mem_append.mp member with first | later
    · rcases exists_of_mem_tables outer first with joined | ⟨join, within, joined⟩
      · exact ⟨outer, .here List.mem_cons_self, joined⟩
      · exact ⟨join, .nested List.mem_cons_self within, joined⟩
    · obtain ⟨join, within, joined⟩ := exists_of_mem_tablesOf joins later
      exact ⟨join, within.subset (List.subset_cons_self outer joins), joined⟩

end

end ViewJoin

namespace MetricView

/-- A table is noted unless it has been. -/
def note (seen : List String) (id : String) : List String :=
  if seen.contains id then seen else seen ++ [id]

theorem foldl_note_isPrefix (seen ids : List String) : seen <+: ids.foldl note seen := by
  induction ids generalizing seen with
  | nil => exact List.prefix_rfl
  | cons id ids ih =>
    refine List.IsPrefix.trans ?_ (ih (note seen id))
    rw [note]
    split
    · exact List.prefix_rfl
    · exact List.prefix_append seen [id]

theorem mem_note_iff {other : String} : other ∈ note seen id ↔ other ∈ seen ∨ other = id := by
  rw [note]
  split
  · rename_i known
    refine (or_iff_left_of_imp ?_).symm
    rintro rfl
    exact List.contains_iff_mem.mp known
  · rw [List.mem_append, List.mem_singleton]

theorem mem_foldl_note_iff : id ∈ ids.foldl note seen ↔ id ∈ seen ∨ id ∈ ids := by
  induction ids generalizing seen with
  | nil => simp
  | cons next ids ih => rw [List.foldl_cons, ih, mem_note_iff, List.mem_cons, or_assoc]

theorem nodup_foldl_note (distinct : seen.Nodup) : (ids.foldl note seen).Nodup := by
  induction ids generalizing seen with
  | nil => exact distinct
  | cons id ids ih =>
    refine ih ?_
    rw [note]
    split
    · exact distinct
    · rename_i unknown
      exact List.concat_eq_append ▸ distinct.concat (mt List.contains_iff_mem.mpr unknown)

theorem tables_eq (v : MetricView) :
    v.tables = (ViewJoin.tablesOf v.joins).foldl note v.sourceTable.toList :=
  rfl

theorem tables_nodup (v : MetricView) : v.tables.Nodup :=
  nodup_foldl_note (by cases v.sourceTable <;> simp)

theorem mem_tables_iff : id ∈ v.tables ↔
    v.sourceTable = some id ∨ ∃ join, ViewJoin.Within join v.joins ∧ join.tableId = some id := by
  rw [tables_eq, mem_foldl_note_iff, Option.mem_toList]
  exact or_congr_right ⟨ViewJoin.exists_of_mem_tablesOf v.joins,
    fun ⟨_, within, joined⟩ => within.mem_tablesOf joined⟩

end MetricView

/-! ### Resolved joins -/

/-- The project has a table with this identifier, and the text is the qualified name of each such
table. -/
def Project.NamesTable (p : Project) (target : Target) (id text : String) : Prop :=
  (∃ t ∈ p.tables, t.id = id) ∧ ∀ t ∈ p.tables, t.id = id → text = target.qualified t.name

/-- An entry stands for a join, and the entries below it stand for the joins that start from that,
in their order. A table of the project is joined by its qualified name, and a condition and shared
columns exclude each other. -/
inductive StandsFor (p : Project) (target : Target) : ViewJoin → JoinDefinition → Prop
  | intro {join : ViewJoin} {entry : JoinDefinition} (name : entry.name = join.name)
      (source : ∀ id, join.tableId = some id → p.NamesTable target id entry.source)
      (columns : entry.columns = join.columns)
      (apart : entry.condition = none ∨ entry.columns = [])
      (nested : List.Forall₂ (StandsFor p target) join.joins entry.joins) :
      StandsFor p target join entry

theorem Project.Keyed.namesTable {t : Table} (keyed : p.Keyed) (found : p.table? id = some t) :
    p.NamesTable target id (target.qualified t.name) := by
  obtain ⟨member, named⟩ := (find?_eq_some_iff_mem keyed.tables).mp found
  refine ⟨⟨t, member, named⟩, fun u other same => ?_⟩
  rw [List.inj_on_of_nodup_map keyed.tables member other (named.trans same.symm)]

/-- A table of the project goes before all other ways to name what is joined. -/
theorem Project.Keyed.joinSource {tableId tableName : Option String} (keyed : p.Keyed)
    (known : (p.table? id).isSome) (joined : tableId = some id) (name : String) :
    p.NamesTable target id (joinSource p target name tableId tableName) := by
  obtain ⟨t, found⟩ := Option.isSome_iff_exists.mp known
  rw [LakeSchema.joinSource, joined, Option.bind_some, found]
  exact keyed.namesTable found

mutual

theorem standsFor {source : Option String} (keyed : p.Keyed) : (join : ViewJoin) →
    (∀ id ∈ join.tables, (p.table? id).isSome) →
    StandsFor p target join (join.definition p target source)
  | ⟨_, name, tableId, tableName, condition, columns, kind, joins⟩, known => by
    rw [ViewJoin.definition]
    refine .intro rfl (fun id joined => ?_) rfl ?_ (standFor keyed joins fun id deeper => ?_)
    · exact keyed.joinSource (known id (ViewJoin.mem_tables_iff.mpr (.inl joined))) joined name
    · cases columns with
      | nil => exact .inr rfl
      | cons _ _ => exact .inl rfl
    · exact known id (ViewJoin.mem_tables_iff.mpr (.inr deeper))

theorem standFor {source : Option String} (keyed : p.Keyed) : (joins : List ViewJoin) →
    (∀ id ∈ ViewJoin.tablesOf joins, (p.table? id).isSome) →
    List.Forall₂ (StandsFor p target) joins (ViewJoin.definitions p target source joins)
  | [], _ => by
    rw [ViewJoin.definitions]
    exact .nil
  | join :: joins, known => by
    rw [ViewJoin.definitions]
    exact .cons (standsFor keyed join fun id first => known id (List.mem_append_left _ first))
      (standFor keyed joins fun id later => known id (List.mem_append_right _ later))

end

theorem MetricView.of_definition {d : MetricDefinition} (defined : v.definition p target = .ok d) :
    d.joins = ViewJoin.definitions p target ((v.sourceTable.bind p.table?).map (·.name)) v.joins ∧
      ∀ t, v.sourceTable.bind p.table? = some t → d.source = target.qualified t.name := by
  rw [MetricView.definition] at defined
  split at defined
  · rename_i t sql found
    obtain rfl := Except.ok.inj defined
    refine ⟨rfl, fun u other => ?_⟩
    rw [Option.some.inj (found.symm.trans other)]
  · rename_i sql absent _
    obtain rfl := Except.ok.inj defined
    exact ⟨rfl, fun t found => absurd (found.symm.trans absent) (Option.some_ne_none t)⟩
  · contradiction

namespace Project

/-- Every table that a view of a compilable project reads is there. -/
theorem Compilable.table?_isSome (compilable : p.Compilable) (member : v ∈ p.metricViews)
    (read : id ∈ v.tables) : (p.table? id).isSome := by
  have reader : ⟨"metric view", v.id, v.name, v.tables⟩ ∈ p.readers :=
    List.mem_append_left _ (List.mem_map_of_mem member)
  exact (viewSourceProblems_eq_nil_iff.mp compilable.readers).2 _ reader id read

/-- In a project without problems the joins of a metric view are resolved one by one at every depth,
each joined table of the project to its qualified name, and the view reads just its source, which
comes first, and these tables, each listed once. -/
theorem definition_resolved (none : p.problems = []) (member : v ∈ p.metricViews)
    (target : Target) :
    (∃ d, v.definition p target = .ok d ∧
      (∀ id, v.sourceTable = some id → p.NamesTable target id d.source) ∧
      List.Forall₂ (StandsFor p target) v.joins d.joins) ∧
    v.tables.Nodup ∧ v.sourceTable.toList <+: v.tables ∧
    ∀ id, id ∈ v.tables ↔
      v.sourceTable = some id ∨ ∃ join, ViewJoin.Within join v.joins ∧ join.tableId = some id := by
  have compilable := problems_eq_nil_iff.mp none
  have keyed := compilable.consistent.toKeyed
  refine ⟨?_, v.tables_nodup, MetricView.foldl_note_isPrefix _ _, fun id => MetricView.mem_tables_iff⟩
  obtain ⟨d, defined⟩ := definition_eq_ok_iff.mpr (compilable.source member)
  obtain ⟨joins, sourced⟩ := MetricView.of_definition defined
  refine ⟨d, defined, fun id source => ?_, ?_⟩
  · have read : id ∈ v.tables := sourceTable_mem_tables source
    obtain ⟨t, found⟩ := Option.isSome_iff_exists.mp (compilable.table?_isSome member read)
    rw [sourced t (by rw [source, Option.bind_some, found])]
    exact keyed.namesTable found
  · rw [joins]
    refine standFor keyed v.joins fun id joined => compilable.table?_isSome member ?_
    exact MetricView.mem_foldl_note_iff.mpr (.inr joined)

/-- Orders with the customers that placed them, their regions, and a currency list kept elsewhere. -/
def nestedOrders : MetricView :=
  let region : ViewJoin :=
    ⟨"K", "region", some "R", some "old.regions", none, ["region_id"], .inner, []⟩
  let currency : ViewJoin :=
    ⟨"L", "currency", none, some "a.b.c.d", some "source.c = currency.c", [], .left, []⟩
  let customer : ViewJoin :=
    ⟨"J", "customer", some "C", none, some "orders.c = customer.c", [], .left, [region, currency]⟩
  { MetricView.plain "V" "order_metrics" "T" newYear with
    joins := [customer, { customer with id := "M" }] }

def nestedShop : Project :=
  let field : Field := .plain "F" "c" .string
  { Project.empty "P" "shop" "main" "sales" newYear with
    tables := [{ Table.plain "T" "orders" newYear with fields := [field] },
      { Table.plain "C" "customers" newYear with fields := [field] },
      { Table.plain "R" "regions" newYear with fields := [field] }]
    metricViews := [nestedOrders] }

/-- The region is joined as the table of the project, twice, and listed once. -/
theorem nestedShop_resolved : nestedShop.problems = [] ∧ nestedOrders ∈ nestedShop.metricViews ∧
    (∃ d, nestedOrders.definition nestedShop (nestedShop.target .standard) = .ok d ∧
      List.Forall₂ (StandsFor nestedShop (nestedShop.target .standard)) nestedOrders.joins d.joins) ∧
    nestedOrders.tables = ["T", "C", "R"] := by
  have none : nestedShop.problems = [] := by decide
  have member : nestedOrders ∈ nestedShop.metricViews := List.mem_cons_self
  obtain ⟨⟨d, defined, -, joins⟩, -⟩ :=
    definition_resolved none member (nestedShop.target .standard)
  exact ⟨none, member, ⟨d, defined, joins⟩, by decide⟩

end Project
end LakeSchema
