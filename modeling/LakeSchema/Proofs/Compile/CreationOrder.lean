import LakeSchema.Proofs.Compile.Countdown

/-!
# The creation order of a project

There is a creation order exactly if there is no cycle to report, and then it is the first one, by
the places of nodes in the project, of all orders in which each node stands after what it depends on
(`order?_leastOrder`). Tables come before views in it, as no table waits for a view.
-/

namespace LakeSchema.DependencyGraph

open Relation

variable {g : DependencyGraph} {n m : DependencyNode} {placed order : List DependencyNode}

/-- Each node stands after all that it depends on. -/
def Topological (g : DependencyGraph) (order : List DependencyNode) : Prop :=
  ∀ before n rest, order = before ++ n :: rest → ∀ m, g.DependsOn n m → m ∈ before

/-! ### Orders and cycles -/

theorem Topological.mem_before (topological : g.Topological order) {before rest : List DependencyNode}
    (split : order = before ++ n :: rest) (path : TransGen g.DependsOn n m) : m ∈ before := by
  induction path with
  | single edge => exact topological before n rest split _ edge
  | tail _ edge ih =>
    obtain ⟨first, last, rfl⟩ := List.append_of_mem ih
    rw [List.append_assoc, List.cons_append] at split
    exact List.mem_append_left _ (topological first _ _ split _ edge)

theorem Topological.acyclic (topological : g.Topological order) (wellFormed : g.WellFormed)
    (perm : order.Perm g.nodes) : g.Acyclic := by
  intro n cycle
  obtain ⟨m, first, _⟩ := TransGen.head'_iff.mp cycle
  obtain ⟨before, rest, split⟩ :=
    List.append_of_mem (perm.mem_iff.mpr (wellFormed.dependent first))
  have once := perm.nodup_iff.mpr wellFormed.distinct
  rw [split, List.nodup_append] at once
  exact once.2.2 n (topological.mem_before split cycle) n List.mem_cons_self rfl

/-! ### The first ready node -/

/-- Of two ready nodes the one that is placed stands first in the project. -/
theorem nextReady?_first (wellFormed : g.WellFormed) (found : g.nextReady? placed = some n)
    (inside : m ∈ g.nodes) (fresh : m ∉ placed) (ready : ∀ k, g.DependsOn m k → k ∈ placed) :
    n = m ∨ n.order < m.order ∧ (m.kind = .table → n.kind = .table) := by
  obtain ⟨_, before, after, split, skipped⟩ := List.find?_eq_some_iff_append.mp found
  have ascending := wellFormed.ascending
  have tables := wellFormed.tablesFirst
  rw [split, List.pairwise_append, List.pairwise_cons] at ascending tables
  rw [split] at inside
  rcases List.mem_append.mp inside with earlier | rest
  · have unready := skipped m earlier
    have impossible : (!placed.contains m && (g.needs m).all placed.contains) = true := by
      simpa [mem_needs] using ⟨fresh, ready⟩
    rw [impossible] at unready
    contradiction
  · rcases List.mem_cons.mp rest with same | later
    · exact .inl same.symm
    · exact .inr ⟨ascending.2.1.1 m later, tables.2.1.1 m later⟩

theorem place_prefix (g : DependencyGraph) (placed : List DependencyNode) (steps : Nat) :
    ∃ tail, g.place placed steps = placed ++ tail := by
  induction steps generalizing placed with
  | zero => exact ⟨[], (List.append_nil placed).symm⟩
  | succ steps ih =>
    rw [place]
    split
    · rename_i n _
      obtain ⟨tail, extended⟩ := ih (placed ++ [n])
      exact ⟨n :: tail, by rw [extended, List.append_assoc]; rfl⟩
    · exact ⟨[], (List.append_nil placed).symm⟩

/-- By the places of their nodes, one list comes before another or is the same. -/
def ComesFirst (nodes others : List DependencyNode) : Prop :=
  nodes = others ∨ List.Lex (· < ·) (nodes.map (·.order)) (others.map (·.order))

theorem comesFirst_nil : (others : List DependencyNode) → ComesFirst [] others
  | [] => .inl rfl
  | _ :: _ => .inr .nil

theorem ComesFirst.cons {nodes others : List DependencyNode} (first : ComesFirst nodes others) :
    ComesFirst (n :: nodes) (n :: others) :=
  first.imp (congrArg (n :: ·)) .cons

/-- Whatever way a placement can be completed, placing the first ready node each time comes first. -/
theorem place_least (wellFormed : g.WellFormed) {rest : List DependencyNode}
    (perm : (placed ++ rest).Perm g.nodes) (topological : g.Topological (placed ++ rest))
    (steps : Nat) :
    ∃ tail, g.place placed steps = placed ++ tail ∧ ComesFirst tail rest := by
  induction steps generalizing placed rest with
  | zero => exact ⟨[], (List.append_nil placed).symm, comesFirst_nil rest⟩
  | succ steps ih =>
    rcases found : g.nextReady? placed with _ | n
    · exact ⟨[], by simp only [place, found, List.append_nil], comesFirst_nil rest⟩
    · obtain ⟨inside, fresh, _⟩ := nextReady?_eq_some found
      have step : g.place placed (steps + 1) = g.place (placed ++ [n]) steps := by
        simp only [place, found]
      cases rest with
      | nil =>
        rw [List.append_nil] at perm
        exact absurd (perm.mem_iff.mpr inside) fresh
      | cons m rest =>
        have once := perm.nodup_iff.mpr wellFormed.distinct
        have unplaced : m ∉ placed := fun again =>
          (List.nodup_append.mp once).2.2 m again m List.mem_cons_self rfl
        have first := nextReady?_first wellFormed found
          (perm.mem_iff.mp (List.mem_append_right _ List.mem_cons_self)) unplaced
          (topological placed m rest rfl)
        rcases first with rfl | ⟨before, _⟩
        · rw [List.append_cons] at perm topological
          obtain ⟨tail, extended, least⟩ := ih perm topological
          exact ⟨n :: tail, by rw [step, extended, List.append_assoc]; rfl, least.cons⟩
        · obtain ⟨tail, extended⟩ := g.place_prefix (placed ++ [n]) steps
          exact ⟨n :: tail, by rw [step, extended, List.append_assoc]; rfl, .inr (.rel before)⟩

/-! ### Tables first -/

/-- As no table waits for a view, a view is next only when all tables are placed. -/
theorem Acyclic.tables_placed (acyclic : g.Acyclic) (wellFormed : g.WellFormed)
    (found : g.nextReady? placed = some n) (view : n.kind ≠ .table) (inside : m ∈ g.nodes)
    (table : m.kind = .table) : m ∈ placed := by
  by_contra missing
  obtain ⟨⟨k, member⟩, ⟨fresh, isTable⟩, least⟩ := acyclic.wellFounded.has_min
    {k | k.1 ∉ placed ∧ k.1.kind = .table} ⟨⟨m, inside⟩, missing, table⟩
  have ready : ∀ m, g.DependsOn k m → m ∈ placed := by
    intro m edge
    by_contra later
    exact least ⟨m, wellFormed.needed edge⟩ ⟨later, wellFormed.table edge⟩ (.single edge)
  rcases nextReady?_first wellFormed found member fresh ready with rfl | ⟨_, first⟩
  · exact view isTable
  · exact view (first isTable)

/-- No table stands behind a view, and when a view is placed no table is missing. -/
structure TablesFirst (g : DependencyGraph) (placed : List DependencyNode) : Prop where
  sorted : placed.Pairwise fun n m => m.kind = .table → n.kind = .table
  complete : ∀ n ∈ placed, n.kind ≠ .table → ∀ m ∈ g.nodes, m.kind = .table → m ∈ placed

theorem TablesFirst.concat (tables : g.TablesFirst placed) (acyclic : g.Acyclic)
    (wellFormed : g.WellFormed) (found : g.nextReady? placed = some n) :
    g.TablesFirst (placed ++ [n]) where
  sorted := by
    obtain ⟨inside, fresh, _⟩ := nextReady?_eq_some found
    refine List.pairwise_append.mpr ⟨tables.sorted, List.pairwise_singleton _ _, ?_⟩
    intro m old k new isTable
    obtain rfl := List.mem_singleton.mp new
    by_contra view
    exact fresh (tables.complete m old view k inside isTable)
  complete m member view k inside isTable := by
    rcases List.mem_append.mp member with old | new
    · exact List.mem_append_left _ (tables.complete m old view k inside isTable)
    · obtain rfl := List.mem_singleton.mp new
      exact List.mem_append_left _ (acyclic.tables_placed wellFormed found view inside isTable)

theorem TablesFirst.place (tables : g.TablesFirst placed) (acyclic : g.Acyclic)
    (wellFormed : g.WellFormed) (steps : Nat) : g.TablesFirst (g.place placed steps) := by
  induction steps generalizing placed with
  | zero => exact tables
  | succ steps ih =>
    rw [DependencyGraph.place]
    split
    · rename_i n found
      exact ih (tables.concat acyclic wellFormed found)
    · exact tables

/-! ### The order of a project -/

/-- An order of all nodes, in which each stands after what it depends on and tables come before
views, and the first such order by the places of its nodes. -/
structure LeastOrder (g : DependencyGraph) (order : List DependencyNode) : Prop where
  perm : order.Perm g.nodes
  topological : g.Topological order
  tablesFirst : order.Pairwise fun n m => m.kind = .table → n.kind = .table
  least : ∀ other : List DependencyNode, other.Perm g.nodes → g.Topological other →
    ComesFirst order other

theorem order?_eq_ok_iff (wellFormed : g.WellFormed) : g.order? = .ok order ↔
    order = g.place [] g.nodes.length ∧ g.nodes.length ≤ order.length := by
  rw [order?_eq wellFormed]
  split
  · rename_i short
    simp only [reduceCtorEq, false_iff]
    rintro ⟨rfl, all⟩
    exact Nat.not_lt.mpr all short
  · rename_i all
    rw [Except.ok.injEq]
    constructor
    · rintro rfl
      exact ⟨rfl, Nat.not_lt.mp all⟩
    · exact fun ⟨same, _⟩ => same.symm

/-- Graphs of the same nodes and edges have one creation order. -/
theorem order?_congr {h : DependencyGraph} (wellFormed : g.WellFormed) (wellFormed' : h.WellFormed)
    (nodes : g.nodes = h.nodes) (edges : ∀ n m, g.DependsOn n m ↔ h.DependsOn n m) :
    g.order? = .ok order ↔ h.order? = .ok order := by
  rw [order?_eq_ok_iff wellFormed, order?_eq_ok_iff wellFormed', place_congr nodes edges, nodes]

theorem order?_leastOrder (wellFormed : g.WellFormed) (acyclic : g.Acyclic) :
    ∃ order, g.order? = .ok order ∧ g.LeastOrder order := by
  obtain ⟨order, found, perm, placement⟩ := order?_of_acyclic wellFormed acyclic
  obtain ⟨placed, _⟩ := (order?_eq_ok_iff wellFormed).mp found
  have start : g.TablesFirst [] := ⟨.nil, fun _ member => absurd member List.not_mem_nil⟩
  refine ⟨order, found, perm, placement.after, ?_, fun other same topological => ?_⟩
  · rw [placed]
    exact (start.place acyclic wellFormed _).sorted
  · have whole : ([] ++ other).Perm g.nodes := same
    obtain ⟨tail, all, least⟩ := place_least wellFormed whole topological g.nodes.length
    rw [placed, all]
    exact least

theorem acyclic_of_order? (wellFormed : g.WellFormed) (found : g.order? = .ok order) : g.Acyclic := by
  have placement : g.Placed (g.place [] g.nodes.length) := placed_nil.place _
  obtain ⟨rfl, all⟩ := (order?_eq_ok_iff wellFormed).mp found
  have perm := (List.subperm_of_subset placement.nodup placement.nodes).perm_of_length_le all
  exact Topological.acyclic placement.after wellFormed perm

theorem order?_eq_error (wellFormed : g.WellFormed) {errors : List SchemaError}
    (failed : g.order? = .error errors) : errors = g.cycleErrors := by
  rw [order?_eq wellFormed] at failed
  split at failed
  · exact (Except.error.inj failed).symm
  · contradiction

theorem cycleErrors_eq_nil_iff : g.cycleErrors = [] ↔ g.cycles = [] :=
  List.map_eq_nil_iff

namespace Countdown

/-- The state of a countdown between two rounds, or while the dependents of a node are told that it
is placed: `told` have been told, `todo` have not. -/
inductive Stage (g : DependencyGraph) : Countdown → Prop
  | round (rounds : Nat) : Stage g ((start g).run g rounds)
  | telling (rounds : Nat) {n : DependencyNode} {next : Countdown} {told todo : List DependencyNode}
      (found : ((start g).run g rounds).place? = some (n, next))
      (split : told ++ todo = g.dependents n) : Stage g (told.foldl release next)

theorem Counting.remaining_nonneg (counting : Counting g todo c) (n : DependencyNode) :
    0 ≤ c.remaining n := by
  rw [counting.remaining n]
  exact Int.natCast_nonneg _

theorem Stage.remaining_nonneg (stage : Stage g c) (wellFormed : g.WellFormed)
    (n : DependencyNode) : 0 ≤ c.remaining n := by
  cases stage with
  | round rounds =>
    exact ((steady_start wellFormed).run wellFormed rounds).1.counts.remaining_nonneg n
  | telling rounds found split =>
    have steady := ((steady_start wellFormed).run wellFormed rounds).1
    exact (steady.counts.tell wellFormed steady.placement found split).remaining_nonneg n

end Countdown

/-- There is no creation order exactly if there are cycles, which are reported then. Otherwise every
table and view of the project stands in it once, and it is the first order that respects the
dependencies; and no counter falls below zero on the way. -/
theorem order?_first_respecting_dependencies (p : Project) :
    ((∃ errors, (build p).order? = .error errors) ↔ (build p).cycles ≠ []) ∧
      (∀ errors, (build p).order? = .error errors →
        errors = (build p).cycleErrors ∧ errors ≠ []) ∧
      (∀ order, (build p).order? = .ok order →
        (build p).LeastOrder order ∧ (order.map (·.entity)).Nodup ∧
          (∀ e, e ∈ order.map (·.entity) ↔ e ∈ entities p) ∧
          ∀ n ∈ order, (entities p)[n.order]? = some n.entity) ∧
      ∀ c, Countdown.Stage (build p) c → ∀ n, 0 ≤ c.remaining n := by
  have wellFormed := build_wellFormed p
  have failing : (∃ errors, (build p).order? = .error errors) ↔ (build p).cycles ≠ [] := by
    rw [Ne, cycles_eq_nil_iff wellFormed]
    constructor
    · rintro ⟨errors, failed⟩ acyclic
      obtain ⟨order, found, _⟩ := order?_of_acyclic wellFormed acyclic
      rw [found] at failed
      contradiction
    · intro cyclic
      rcases found : (build p).order? with errors | order
      · exact ⟨errors, rfl⟩
      · exact absurd (acyclic_of_order? wellFormed found) cyclic
  refine ⟨failing, fun errors failed => ?_, fun order found => ?_, fun c stage n => ?_⟩
  · have same := order?_eq_error wellFormed failed
    refine ⟨same, ?_⟩
    rw [same, Ne, cycleErrors_eq_nil_iff]
    exact failing.mp ⟨errors, failed⟩
  · obtain ⟨_, same, least⟩ :=
      order?_leastOrder wellFormed (acyclic_of_order? wellFormed found)
    obtain rfl := Except.ok.inj (found.symm.trans same)
    have entities := least.perm.map (·.entity)
    refine ⟨least, entities.nodup_iff.mpr (nodesOf_entities_nodup p), fun e => ?_, fun n member => ?_⟩
    · exact entities.mem_iff.trans mem_nodesOf_entities
    · exact entity_of_mem_nodesOf (least.perm.mem_iff.mp member)
  · exact stage.remaining_nonneg wellFormed n

end LakeSchema.DependencyGraph
