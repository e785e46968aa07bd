import LakeSchema.Proofs.Compile.ShortestPath
import LakeSchema.Proofs.Edit.Linking
import LakeSchema.Proofs.Session.Invariant

/-!
# Previewing a relationship

A new relationship puts an edge from the table of its dependent field to that of its source. It may
take edges away as well, since the field gives up what it referred to before, but these start where the
new edge starts, so that no path back to there needs them. So a cycle comes about exactly if the preview
found a path from the source to the dependent table (`link_cycles_iff`).
-/

namespace LakeSchema

open Relation DependencyGraph

section Edge

variable {α : Type} {R S : α → α → Prop} {a b x y : α}

/-- A path over one more edge from `a` to `b` that does not stay within the old edges reaches `a`
and comes from `b` within them. -/
theorem reflTransGen_of_edge (edge : ∀ x y, S x y → R x y ∨ x = a ∧ y = b)
    (path : ReflTransGen S x y) :
    ReflTransGen R x y ∨ ReflTransGen R x a ∧ ReflTransGen R b y := by
  induction path with
  | refl => exact .inl .refl
  | tail _ last ih =>
    rcases edge _ _ last with old | ⟨rfl, rfl⟩
    · exact ih.imp (·.tail old) (And.imp_right (·.tail old))
    · rcases ih with within | ⟨reaches, _⟩
      · exact .inr ⟨within, .refl⟩
      · exact .inr ⟨reaches, .refl⟩

/-- A cycle that comes about with one more edge closes a path that was there. -/
theorem reflTransGen_of_cycle (edge : ∀ x y, S x y → R x y ∨ x = a ∧ y = b)
    (acyclic : ∀ x, ¬ TransGen R x x) (cycle : TransGen S x x) : ReflTransGen R b a := by
  obtain ⟨y, first, back⟩ := TransGen.head'_iff.mp cycle
  rcases edge _ _ first with old | ⟨rfl, rfl⟩
  · rcases reflTransGen_of_edge edge back with within | ⟨reaches, comes⟩
    · exact (acyclic x (.head' old within)).elim
    · exact (comes.tail old).trans reaches
  · exact (reflTransGen_of_edge edge back).elim id And.left

/-- A path to `a` needs no edge that starts at `a`. -/
theorem reflTransGen_of_kept (kept : ∀ x y, R x y → x ≠ a → S x y) (path : ReflTransGen R x a) :
    ReflTransGen S x a := by
  induction path using ReflTransGen.head_induction_on with
  | refl => exact .refl
  | @head x y first _ ih =>
    by_cases here : x = a
    · rw [here]
    · exact .head (kept x y first here) ih

end Edge

namespace Project

variable {p q : Project} {spec : RelationshipSpec} {r : Relationship} {now : Timestamp}
  {a b : String}

theorem dependent_relationship (spec : RelationshipSpec) (now : Timestamp) :
    (spec.relationship now).dependent = spec.dependent := by
  by_cases empty : spec.dependent.table = "" ∨ spec.dependent.field = "" <;>
    simp [Relationship.dependent, Relationship.fallback, RelationshipSpec.relationship,
      Relationship.between]

/-! ### Dependencies of tables -/

theorem tablePairs_linked (pair : (a, b) ∈ tablePairs (p.linked spec now)) :
    (a, b) ∈ tablePairs p ∨ a = spec.dependent.table ∧ b = spec.source.table := by
  obtain ⟨apart, origin⟩ := mem_tablePairs.mp pair
  rw [mem_tablePairs]
  rcases origin with ⟨r, member, dependent, source⟩ | ⟨t, member, rfl, f, present, refers⟩
  · rcases List.mem_append.mp member with old | new
    · exact .inl ⟨apart, .inl ⟨r, old, dependent, source⟩⟩
    · obtain rfl := List.mem_singleton.mp new
      rw [dependent_relationship] at dependent
      exact .inr ⟨dependent.symm, source.symm⟩
  · rcases mem_updateFirst member with old | ⟨u, old, located, rfl⟩
    · exact .inl ⟨apart, .inr ⟨t, old, rfl, f, present, refers⟩⟩
    · rcases mem_updateFirst present with kept | ⟨g, _, _, rfl⟩
      · exact .inl ⟨apart, .inr ⟨u, old, rfl, f, kept, refers⟩⟩
      · have source : spec.source.table = b := by
          simpa [Field.refersInto, Field.attach, RelationshipSpec.reference] using refers
        exact .inr ⟨by simpa using located, source.symm⟩

theorem tablePairs_linked_of_ne (pair : (a, b) ∈ tablePairs p) (other : a ≠ spec.dependent.table) :
    (a, b) ∈ tablePairs (p.linked spec now) := by
  obtain ⟨apart, origin⟩ := mem_tablePairs.mp pair
  refine mem_tablePairs.mpr ⟨apart, ?_⟩
  rcases origin with ⟨r, member, ends⟩ | ⟨t, member, rfl, refers⟩
  · exact .inl ⟨r, List.mem_append_left _ member, ends⟩
  · exact .inr ⟨t, mem_updateFirst_of_neg member (by simpa using other), rfl, refers⟩

theorem tablePairs_linked_self (apart : spec.dependent.table ≠ spec.source.table) :
    (spec.dependent.table, spec.source.table) ∈ tablePairs (p.linked spec now) := by
  refine mem_tablePairs.mpr ⟨apart, .inl ⟨_, List.mem_append_right _ List.mem_cons_self, ?_, rfl⟩⟩
  rw [dependent_relationship]

theorem nodes_linked : (build (p.linked spec now)).nodes = (build p).nodes := by
  have ids : (p.linked spec now).tables.map (fun t => (EntityKind.table, t.id)) =
      p.tables.map fun t => (.table, t.id) :=
    updateFirst_map_key fun _ => rfl
  change nodesOf (p.linked spec now) = nodesOf p
  rw [nodesOf, nodesOf, entities, entities, ids]
  rfl

theorem dependencies_linked {e : (EntityKind × String) × String}
    (known : e ∈ dependencies (p.linked spec now)) :
    e ∈ dependencies p ∨ e = ((.table, spec.dependent.table), spec.source.table) := by
  rcases List.mem_append.mp known with before | plain
  · rcases List.mem_append.mp before with tables | metric
    · obtain ⟨⟨a, b⟩, pair, rfl⟩ := List.mem_map.mp tables
      rcases tablePairs_linked pair with old | ⟨rfl, rfl⟩
      · exact .inl (List.mem_append_left _ (List.mem_append_left _ (List.mem_map_of_mem old)))
      · exact .inr rfl
    · exact .inl (List.mem_append_left _ (List.mem_append_right _ metric))
  · exact .inl (List.mem_append_right _ plain)

theorem dependencies_linked_of_ne {e : (EntityKind × String) × String} (known : e ∈ dependencies p)
    (other : e.1 ≠ (.table, spec.dependent.table)) : e ∈ dependencies (p.linked spec now) := by
  rcases List.mem_append.mp known with before | plain
  · refine List.mem_append_left _ ?_
    rcases List.mem_append.mp before with tables | metric
    · obtain ⟨⟨a, b⟩, pair, rfl⟩ := List.mem_map.mp tables
      have apart : a ≠ spec.dependent.table := fun same => other (by rw [same])
      exact List.mem_append_left _ (List.mem_map_of_mem (tablePairs_linked_of_ne pair apart))
    · exact List.mem_append_right _ metric
  · exact List.mem_append_right _ plain

/-! ### The graph -/

/-- The edges of the graph afterwards: a new one, and those of before that start elsewhere. -/
theorem dependsOn_linked {d s : DependencyNode} (now : Timestamp)
    (dependent : node? (build p).nodes .table spec.dependent.table = some d)
    (source : node? (build p).nodes .table spec.source.table = some s)
    (apart : spec.source.table ≠ spec.dependent.table) :
    (∀ n m, (build (p.linked spec now)).DependsOn n m → (build p).DependsOn n m ∨ n = d ∧ m = s) ∧
      (∀ n m, (build p).DependsOn n m → n ≠ d → (build (p.linked spec now)).DependsOn n m) ∧
      (build (p.linked spec now)).DependsOn d s := by
  have distinct := nodesOf_entities_nodup p
  have only : ∀ {n k : DependencyNode} {kind : EntityKind} {id : String}, n ∈ (build p).nodes →
      n.entity = (kind, id) → node? (build p).nodes kind id = some k → n = k := by
    intro n k kind id member same found
    obtain ⟨rfl, rfl⟩ := Prod.mk.inj same
    exact Option.some_inj.mp (((node?_eq_some_iff distinct).mpr ⟨member, rfl, rfl⟩).symm.trans found)
  simp only [dependsOn_build_iff, nodes_linked]
  refine ⟨?_, ?_, ?_⟩
  · rintro n m ⟨inside, needed, isTable, known⟩
    rcases dependencies_linked known with old | new
    · exact .inl ⟨inside, needed, isTable, old⟩
    · obtain ⟨first, last⟩ := Prod.mk.inj new
      exact .inr ⟨only inside first dependent, only needed (Prod.ext isTable last) source⟩
  · rintro n m ⟨inside, needed, isTable, known⟩ other
    refine ⟨inside, needed, isTable, dependencies_linked_of_ne known fun same => ?_⟩
    exact other (only inside same dependent)
  · obtain ⟨inside, kind, id⟩ := (node?_eq_some_iff distinct).mp dependent
    obtain ⟨needed, isTable, table⟩ := (node?_eq_some_iff distinct).mp source
    refine ⟨inside, needed, isTable, ?_⟩
    rw [show d.entity = (.table, spec.dependent.table) from Prod.ext kind id, table,
      mem_dependencies_table]
    exact tablePairs_linked_self apart.symm

theorem exists_node_of_table {id : String} (present : (p.table? id).isSome) :
    ∃ n, node? (build p).nodes .table id = some n := by
  obtain ⟨t, located⟩ := Option.isSome_iff_exists.mp present
  have known : id ∈ p.tables.map (·.id) := by
    rw [← table?_id located]
    exact List.mem_map_of_mem (List.mem_of_find?_eq_some located)
  obtain ⟨n, node⟩ := exists_tableNode known
  exact ⟨n, (node?_eq_some_iff (nodesOf_entities_nodup p)).mpr node⟩

/-- Neither origins nor the time of a change are part of the graph. -/
theorem build_settled (policy : OriginPolicy) (p : Project) (now : Timestamp) :
    build { Session.settled policy p with updatedAt := now } = build p := by
  cases policy with
  | nameMatch => rfl
  | explicit =>
    have nodes : nodesOf { p.recordOrigins with updatedAt := now } = nodesOf p := by
      simp [nodesOf, entities, recordOrigins, Function.comp_def]
    have pairs : tablePairs { p.recordOrigins with updatedAt := now } = tablePairs p := by
      simp [tablePairs, recordOrigins, List.flatMap_map, List.filterMap_map,
        (p.recordOrigin_keeps _).2.1]
    have known : dependencies { p.recordOrigins with updatedAt := now } = dependencies p := by
      rw [dependencies, pairs]
      rfl
    rw [Session.settled, build, nodes, known]
    rfl

theorem closedCycle?_isSome_iff {dependent source : String} (apart : source ≠ dependent)
    {d s : DependencyNode} (first : node? (build p).nodes .table dependent = some d)
    (last : node? (build p).nodes .table source = some s) :
    (p.closedCycle? dependent source).isSome ↔ ReflTransGen (build p).DependsOn s d := by
  rw [closedCycle?, if_neg (by simpa using apart.symm), path?_isSome_iff (build_wellFormed p), first,
    last]
  simp

/-- A relationship between two tables of a project without cycles closes a cycle exactly if the
preview finds a path back, and so it is when a session commits the project. -/
theorem link_cycles_iff (acyclic : (build p).cycles = [])
    (apart : spec.source.table ≠ spec.dependent.table) (done : p.link spec now = .ok (r, q)) :
    ((build q).cycles ≠ [] ↔
      (p.closedCycle? spec.dependent.table spec.source.table).isSome) ∧
    ∀ policy next, Session.commit ⟨p, policy⟩ q now = .ok next →
      ((build next.project).cycles ≠ [] ↔
        (p.closedCycle? spec.dependent.table spec.source.table).isSome) := by
  have closes : (build q).cycles ≠ [] ↔
      (p.closedCycle? spec.dependent.table spec.source.table).isSome := by
    obtain ⟨_, source, dependent, _, _, rfl⟩ := link_eq_ok_iff.mp done
    obtain ⟨d, first⟩ := exists_node_of_table (Option.isSome_of_isSome_bind dependent)
    obtain ⟨s, last⟩ := exists_node_of_table (Option.isSome_of_isSome_bind source)
    obtain ⟨edge, kept, new⟩ := dependsOn_linked now first last apart
    rw [closedCycle?_isSome_iff apart first last, Ne, cycles_eq_nil_iff (build_wellFormed _), Acyclic]
    simp only [not_forall, not_not]
    constructor
    · rintro ⟨n, cycle⟩
      exact reflTransGen_of_cycle edge ((cycles_eq_nil_iff (build_wellFormed p)).mp acyclic) cycle
    · exact fun path => ⟨d, .head' new (reflTransGen_of_kept kept path)⟩
  refine ⟨closes, fun policy next committed => ?_⟩
  obtain ⟨_, rfl⟩ := Session.commit_eq_ok_iff.mp committed
  rw [build_settled]
  exact closes

/-- A relationship between two fields, with nothing else asked for. -/
def specBetween (source dependent : Location) : RelationshipSpec :=
  { id := "new"
    source, dependent
    cardinality := .oneToMany
    constraintName := none
    onDelete := .noAction
    onUpdate := .noAction
    origin := none }

/-- Sales depend on stores, which depend on regions. Stores that depend on sales instead of regions
close a cycle, sales that depend on regions do not. -/
theorem keyChain_link_cycles :
    (build keyChain).cycles = [] ∧
      (∃ r q, keyChain.link (specBetween ⟨"T", "M"⟩ ⟨"S", "L"⟩) newYear = .ok (r, q) ∧
        (build q).cycles ≠ []) ∧
      ∃ r q, keyChain.link (specBetween ⟨"R", "K"⟩ ⟨"T", "M"⟩) newYear = .ok (r, q) ∧
        (build q).cycles = [] := by
  have acyclic : (build keyChain).cycles = [] := by decide +kernel
  have wellFormed := build_wellFormed keyChain
  obtain ⟨r, q, closing⟩ : ∃ r q,
      keyChain.link (specBetween ⟨"T", "M"⟩ ⟨"S", "L"⟩) newYear = .ok (r, q) := ⟨_, _, rfl⟩
  obtain ⟨r', q', other⟩ : ∃ r q,
      keyChain.link (specBetween ⟨"R", "K"⟩ ⟨"T", "M"⟩) newYear = .ok (r, q) := ⟨_, _, rfl⟩
  have regions : node? (build keyChain).nodes .table "R" = some ⟨.table, "R", 0⟩ := by decide +kernel
  have stores : node? (build keyChain).nodes .table "S" = some ⟨.table, "S", 1⟩ := by decide +kernel
  have sales : node? (build keyChain).nodes .table "T" = some ⟨.table, "T", 2⟩ := by decide +kernel
  refine ⟨acyclic, ⟨r, q, closing, ?_⟩, r', q', other, ?_⟩
  · refine (link_cycles_iff acyclic (by decide) closing).1.mpr ?_
    rw [specBetween, closedCycle?_isSome_iff (by decide) stores sales, ← mem_reachable_iff wellFormed]
    decide +kernel
  · refine not_not.mp (mt (link_cycles_iff acyclic (by decide) other).1.mp ?_)
    rw [specBetween, closedCycle?_isSome_iff (by decide) sales regions, ← mem_reachable_iff wellFormed]
    decide +kernel

end Project
end LakeSchema
