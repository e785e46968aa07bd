import LakeSchema.Proofs.Compile.Graph
import Mathlib.Data.List.Sort
import Mathlib.Logic.Relation

/-!
# Reachability and cycles

The search for reachable nodes takes as many rounds as there are nodes, in each of which it finds a
new node or is done. So it finds exactly the nodes at the end of a path (`mem_reachable_iff`), and
there are cycles to report exactly if a node can be reached from itself (`cycles_eq_nil_iff`).
-/

namespace LakeSchema.DependencyGraph

open Relation

variable {g : DependencyGraph} {n m : DependencyNode} {reached : List DependencyNode} {steps : Nat}

/-- No node depends on itself, however indirectly. -/
def Acyclic (g : DependencyGraph) : Prop :=
  ∀ n, ¬ TransGen g.DependsOn n n

/-- The nodes that one more round of the search finds. -/
def fresh (g : DependencyGraph) (reached : List DependencyNode) : List DependencyNode :=
  g.nodes.filter fun n => !reached.contains n && (reached.flatMap g.needs).contains n

theorem reachFrom_succ (g : DependencyGraph) (reached : List DependencyNode) (steps : Nat) :
    g.reachFrom reached (steps + 1) =
      if (g.fresh reached).isEmpty then reached
      else g.reachFrom (reached ++ g.fresh reached) steps :=
  rfl

theorem mem_fresh : m ∈ g.fresh reached ↔
    m ∈ g.nodes ∧ m ∉ reached ∧ ∃ n ∈ reached, g.DependsOn n m := by
  simp [fresh, mem_needs]

theorem subset_reachFrom (g : DependencyGraph) (reached : List DependencyNode) (steps : Nat) :
    reached ⊆ g.reachFrom reached steps := by
  induction steps generalizing reached with
  | zero => exact List.Subset.refl reached
  | succ steps ih =>
    rw [reachFrom_succ]
    split
    · exact List.Subset.refl reached
    · exact List.Subset.trans (List.subset_append_left _ _) (ih _)

theorem reachFrom_sound (found : m ∈ g.reachFrom reached steps) :
    ∃ n ∈ reached, ReflTransGen g.DependsOn n m := by
  induction steps generalizing reached with
  | zero => exact ⟨m, found, .refl⟩
  | succ steps ih =>
    rw [reachFrom_succ] at found
    split at found
    · exact ⟨m, found, .refl⟩
    · obtain ⟨k, known, path⟩ := ih found
      rcases List.mem_append.mp known with old | new
      · exact ⟨k, old, path⟩
      · obtain ⟨_, _, n, old, edge⟩ := mem_fresh.mp new
        exact ⟨n, old, .head edge path⟩

/-- With a round for every node not yet reached the search ends only when no edge leads further. -/
theorem reachFrom_closed (wellFormed : g.WellFormed)
    (enough : (g.nodes.filter fun n => !reached.contains n).length ≤ steps)
    (found : n ∈ g.reachFrom reached steps) (edge : g.DependsOn n m) :
    m ∈ g.reachFrom reached steps := by
  have needed := wellFormed.needed edge
  induction steps generalizing reached with
  | zero =>
    have all := List.filter_eq_nil_iff.mp (List.length_eq_zero_iff.mp (Nat.le_zero.mp enough))
    have known : m ∈ reached := by simpa using all m needed
    exact known
  | succ steps ih =>
    rw [reachFrom_succ] at found ⊢
    split at found
    · rename_i done
      rw [if_pos done]
      by_contra missing
      have new : m ∈ g.fresh reached := mem_fresh.mpr ⟨needed, missing, n, found, edge⟩
      rw [List.isEmpty_iff.mp done] at new
      exact List.not_mem_nil new
    · rename_i more
      rw [if_neg more]
      refine ih ?_ found
      -- The round found a node, so fewer are left for the rounds that remain.
      obtain ⟨k, new⟩ := List.exists_mem_of_ne_nil _ (mt List.isEmpty_iff.mpr more)
      have fewer : (g.nodes.filter fun n => !(reached ++ g.fresh reached).contains n).length <
          (g.nodes.filter fun n => !reached.contains n).length := by
        have apart : (g.nodes.filter fun n => !(reached ++ g.fresh reached).contains n) =
            (g.nodes.filter fun n => !reached.contains n).filter
              fun n => !(g.fresh reached).contains n := by
          rw [List.filter_filter]
          refine List.filter_congr fun n _ => ?_
          simp [Bool.and_comm]
        rw [apart, List.length_filter_lt_length_iff_exists]
        obtain ⟨inside, unreached, _⟩ := mem_fresh.mp new
        exact ⟨k, by simp [inside, unreached], by simp [new]⟩
      omega

/-- The search finds the nodes at the ends of paths. -/
theorem mem_reachable_iff (wellFormed : g.WellFormed) :
    m ∈ g.reachable n ↔ ReflTransGen g.DependsOn n m := by
  constructor
  · intro found
    obtain ⟨k, start, path⟩ := reachFrom_sound found
    rwa [List.mem_singleton.mp start] at path
  · intro path
    induction path with
    | refl => exact g.subset_reachFrom [n] _ (List.mem_singleton_self n)
    | tail _ edge ih => exact reachFrom_closed wellFormed (List.length_filter_le _ _) ih edge

/-! ### Components -/

/-- Lists of nodes that hold each node once, together with those that it reaches and that reach it. -/
structure StronglyConnected (g : DependencyGraph) (components : List (List DependencyNode)) : Prop where
  covered : ∀ n ∈ g.nodes, ∃ c ∈ components, n ∈ c
  distinct : ∀ c ∈ components, c.Nodup
  apart : components.Pairwise List.Disjoint
  linked : ∀ c ∈ components, ∀ n ∈ c, ∀ m,
    m ∈ c ↔ m ∈ g.nodes ∧ ReflTransGen g.DependsOn n m ∧ ReflTransGen g.DependsOn m n

/-- The nodes that a node reaches and that reach it. -/
def component (g : DependencyGraph) (n : DependencyNode) : List DependencyNode :=
  g.nodes.filter fun m => (g.reachable n).contains m && (g.reachable m).contains n

theorem components_eq (g : DependencyGraph) : g.components = (g.nodes.map g.component).eraseDups := by
  rw [components, List.map_map]
  refine congrArg List.eraseDups (List.map_congr_left fun n _ => ?_)
  simp [component, List.filter_map, Function.comp_def]

theorem mem_component (wellFormed : g.WellFormed) : m ∈ g.component n ↔
    m ∈ g.nodes ∧ ReflTransGen g.DependsOn n m ∧ ReflTransGen g.DependsOn m n := by
  simp only [component, List.mem_filter, Bool.and_eq_true, List.contains_iff_mem,
    mem_reachable_iff wellFormed]

theorem component_eq_of_mem (wellFormed : g.WellFormed) (member : m ∈ g.component n) :
    g.component m = g.component n := by
  obtain ⟨_, out, back⟩ := (mem_component wellFormed).mp member
  refine List.filter_congr fun k _ => ?_
  rw [Bool.eq_iff_iff]
  simp only [Bool.and_eq_true, List.contains_iff_mem, mem_reachable_iff wellFormed]
  constructor
  · rintro ⟨there, here⟩
    exact ⟨out.trans there, here.trans back⟩
  · rintro ⟨there, here⟩
    exact ⟨back.trans there, here.trans out⟩

/-- The components that the search for reachable nodes gives. -/
theorem components_stronglyConnected (wellFormed : g.WellFormed) :
    g.StronglyConnected g.components := by
  have listed : ∀ {c}, c ∈ g.components ↔ ∃ n ∈ g.nodes, g.component n = c := by
    simp [components_eq]
  refine ⟨fun n inside => ?_, fun c member => ?_, ?_, fun c member k within m => ?_⟩
  · exact ⟨_, listed.mpr ⟨n, inside, rfl⟩, (mem_component wellFormed).mpr ⟨inside, .refl, .refl⟩⟩
  · obtain ⟨n, -, rfl⟩ := listed.mp member
    exact wellFormed.distinct.filter _
  · have once : g.components.Nodup := components_eq g ▸ nodup_eraseDups _
    refine once.imp_of_mem fun {c d} first second apart => ?_
    obtain ⟨n, -, rfl⟩ := listed.mp first
    obtain ⟨m, -, rfl⟩ := listed.mp second
    intro k here there
    exact apart ((component_eq_of_mem wellFormed here).symm.trans
      (component_eq_of_mem wellFormed there))
  · obtain ⟨n, -, rfl⟩ := listed.mp member
    rw [← component_eq_of_mem wellFormed within]
    exact mem_component wellFormed

/-! ### Cycles -/

theorem firstPlace_of_head? {c : List DependencyNode} (head : n ∈ c.head?) :
    firstPlace c = n.order + 1 := by
  obtain ⟨rest, rfl⟩ := List.head?_eq_some_iff.mp head
  rfl

section Sorting

variable {α : Type} {key : α → Nat}

theorem sortBy_eq_insertionSort (key : α → Nat) (items : List α) :
    sortBy key items = items.insertionSort fun x y => key x ≤ key y := by
  have insert (x : α) (items : List α) :
      insertBy key x items = items.orderedInsert (fun x y => key x ≤ key y) x := by
    induction items with
    | nil => rfl
    | cons y rest ih => rw [insertBy, List.orderedInsert, ih]
  induction items with
  | nil => rfl
  | cons x rest ih => exact (insert x _).trans (congrArg (List.orderedInsert _ x) ih)

theorem sortBy_perm (key : α → Nat) (items : List α) : (sortBy key items).Perm items :=
  sortBy_eq_insertionSort key items ▸ List.perm_insertionSort _ items

theorem sortBy_ascending (key : α → Nat) (items : List α) :
    (sortBy key items).Pairwise fun x y => key x ≤ key y := by
  have : Std.Total fun x y : α => key x ≤ key y := ⟨fun x y => Nat.le_total (key x) (key y)⟩
  have : IsTrans α fun x y => key x ≤ key y := ⟨fun _ _ _ => Nat.le_trans⟩
  rw [sortBy_eq_insertionSort]
  exact List.pairwise_insertionSort _ items

end Sorting

section Listed

variable {components : List (List DependencyNode)} {c : List DependencyNode}

theorem mem_cyclesAmong : c ∈ cyclesAmong components ↔
    ∃ d ∈ components, 1 < d.length ∧ sortBy (·.order) (d.filter (·.kind == .table)) = c ∧ 1 < c.length := by
  simp only [cyclesAmong, (sortBy_perm _ _).mem_iff, List.mem_filter, List.mem_map, decide_eq_true_iff]
  constructor
  · rintro ⟨⟨d, ⟨listed, several⟩, same⟩, many⟩
    exact ⟨d, listed, several, same, many⟩
  · rintro ⟨d, listed, several, same, many⟩
    exact ⟨⟨d, ⟨listed, several⟩, same⟩, many⟩

variable (strong : g.StronglyConnected components) (wellFormed : g.WellFormed)
  (listed : c ∈ components)

include strong listed

/-- A component has several nodes exactly if each of its nodes depends on itself. -/
theorem StronglyConnected.several_iff (wellFormed : g.WellFormed) (inside : n ∈ c) :
    1 < c.length ↔ TransGen g.DependsOn n n := by
  constructor
  · intro several
    obtain ⟨m, member, other⟩ : ∃ m ∈ c, m ≠ n := by
      by_contra only
      push Not at only
      have distinct := strong.distinct c listed
      rw [List.eq_replicate_of_mem only, List.nodup_replicate] at distinct
      omega
    obtain ⟨_, out, back⟩ := (strong.linked c listed n inside m).mp member
    rcases reflTransGen_iff_eq_or_transGen.mp out with same | path
    · exact (other same).elim
    · exact path.trans_left back
  · intro cycle
    obtain ⟨m, first, back⟩ := TransGen.head'_iff.mp cycle
    have member := (strong.linked c listed n inside m).mpr
      ⟨wellFormed.needed first, .single first, back⟩
    have other : n ≠ m := by
      rintro rfl
      exact wellFormed.irrefl first
    have two : [n, m].Nodup := by simpa using other
    exact (List.subperm_of_subset two (by simp [List.cons_subset, inside, member])).length_le

/-- Nodes that depend on themselves are tables, as every edge leads to one. -/
theorem StronglyConnected.filter_table (wellFormed : g.WellFormed) (several : 1 < c.length) :
    c.filter (·.kind == .table) = c := by
  refine List.filter_eq_self.mpr fun n inside => beq_iff_eq.mpr ?_
  obtain ⟨_, _, last⟩ :=
    TransGen.tail'_iff.mp ((strong.several_iff listed wellFormed inside).mp several)
  exact wellFormed.table last

omit listed

/-- What is reported are the components of several nodes, in order. -/
theorem StronglyConnected.mem_cyclesAmong (wellFormed : g.WellFormed) :
    c ∈ cyclesAmong components ↔ ∃ d ∈ components, 1 < d.length ∧ sortBy (·.order) d = c := by
  rw [DependencyGraph.mem_cyclesAmong]
  constructor
  · rintro ⟨d, listed, several, same, -⟩
    exact ⟨d, listed, several, by rwa [strong.filter_table listed wellFormed several] at same⟩
  · rintro ⟨d, listed, several, rfl⟩
    refine ⟨d, listed, several, by rw [strong.filter_table listed wellFormed several], ?_⟩
    rwa [(sortBy_perm _ d).length_eq]

theorem StronglyConnected.cyclesAmong_eq_nil_iff (wellFormed : g.WellFormed) :
    cyclesAmong components = [] ↔ g.Acyclic := by
  rw [List.eq_nil_iff_forall_not_mem]
  simp only [strong.mem_cyclesAmong wellFormed]
  constructor
  · intro none n cycle
    obtain ⟨m, first, _⟩ := TransGen.head'_iff.mp cycle
    obtain ⟨c, listed, inside⟩ := strong.covered n (wellFormed.dependent first)
    exact none _ ⟨c, listed, (strong.several_iff listed wellFormed inside).mpr cycle, rfl⟩
  · rintro acyclic _ ⟨c, listed, several, -⟩
    obtain ⟨n, inside⟩ := List.exists_mem_of_length_pos (Nat.zero_lt_of_lt several)
    exact acyclic n ((strong.several_iff listed wellFormed inside).mp several)

end Listed

/-- There are cycles to report exactly if some node depends on itself. -/
theorem cycles_eq_nil_iff (wellFormed : g.WellFormed) : g.cycles = [] ↔ g.Acyclic := by
  rw [cycles, List.map_eq_nil_iff]
  exact (components_stronglyConnected wellFormed).cyclesAmong_eq_nil_iff wellFormed

end LakeSchema.DependencyGraph
