import LakeSchema.Proofs.Compile.Reach
import Mathlib.Data.Set.Finite.Basic
import Mathlib.Data.List.Perm.Subperm
import Mathlib.Order.WellFounded

/-!
# The rule of the creation order

`place` is the rule that a creation order follows: the next node is the first in project order that
depends only on nodes placed before. `Placed` is its invariant: the nodes placed so far are distinct,
and each stands after all that it depends on. As long as nodes are missing, one of them is ready
unless the graph has a cycle, so the nodes of a graph without cycles are all placed (`length_place`).
-/

namespace LakeSchema.DependencyGraph

open Relation

variable {g : DependencyGraph} {n m : DependencyNode} {placed : List DependencyNode} {steps : Nat}

/-- The first node in project order that is not yet placed and depends only on placed nodes. -/
def nextReady? (g : DependencyGraph) (placed : List DependencyNode) : Option DependencyNode :=
  g.nodes.find? fun n => !placed.contains n && (g.needs n).all placed.contains

/-- Places ready nodes one after the other. -/
def place (g : DependencyGraph) (placed : List DependencyNode) : (steps : Nat) →
    List DependencyNode
  | 0 => placed
  | steps + 1 =>
    match g.nextReady? placed with
    | some n => g.place (placed ++ [n]) steps
    | none => placed

section Congruence

variable {h : DependencyGraph}

/-- The rule sees which edges there are, not in which order they were found. -/
theorem nextReady?_congr (nodes : g.nodes = h.nodes)
    (edges : ∀ n m, g.DependsOn n m ↔ h.DependsOn n m) (placed : List DependencyNode) :
    g.nextReady? placed = h.nextReady? placed := by
  have ready : ∀ n, (g.needs n).all placed.contains = (h.needs n).all placed.contains := by
    intro n
    rw [Bool.eq_iff_iff]
    simp [mem_needs, edges]
  simp only [nextReady?, nodes, ready]

theorem place_congr (nodes : g.nodes = h.nodes)
    (edges : ∀ n m, g.DependsOn n m ↔ h.DependsOn n m) (placed : List DependencyNode) (steps : Nat) :
    g.place placed steps = h.place placed steps := by
  induction steps generalizing placed with
  | zero => rfl
  | succ steps ih =>
    rw [place, place, nextReady?_congr nodes edges]
    split
    · exact ih _
    · rfl

end Congruence

/-- Distinct nodes, each after all that it depends on. -/
structure Placed (g : DependencyGraph) (placed : List DependencyNode) : Prop where
  nodes : placed ⊆ g.nodes
  nodup : placed.Nodup
  after : ∀ before n rest, placed = before ++ n :: rest → ∀ m, g.DependsOn n m → m ∈ before

theorem placed_nil : g.Placed [] where
  nodes := List.nil_subset _
  nodup := List.nodup_nil
  after before n rest split := by simp at split

theorem Placed.closed (placement : g.Placed placed) (member : n ∈ placed) (edge : g.DependsOn n m) :
    m ∈ placed := by
  obtain ⟨before, rest, rfl⟩ := List.append_of_mem member
  exact List.mem_append_left _ (placement.after before n rest rfl m edge)

theorem Placed.concat (placement : g.Placed placed) (inside : n ∈ g.nodes) (fresh : n ∉ placed)
    (ready : ∀ m, g.DependsOn n m → m ∈ placed) : g.Placed (placed ++ [n]) where
  nodes := List.append_subset.mpr ⟨placement.nodes, by simpa using inside⟩
  nodup := by
    rw [List.nodup_append]
    refine ⟨placement.nodup, List.nodup_singleton n, fun a old b new same => fresh ?_⟩
    rwa [← List.mem_singleton.mp new, ← same]
  after before k rest split m edge := by
    -- Either the new node is the one in question, or the split lies within the old list.
    rcases List.eq_nil_or_concat rest with rfl | ⟨rest, last, rfl⟩
    · obtain ⟨rfl, same⟩ := List.append_inj' split rfl
      obtain rfl := List.singleton_inj.mp same
      exact ready m edge
    · rw [List.concat_eq_append, ← List.cons_append, ← List.append_assoc] at split
      exact placement.after before k rest (List.append_inj' split rfl).1 m edge

theorem nextReady?_eq_some (found : g.nextReady? placed = some n) :
    n ∈ g.nodes ∧ n ∉ placed ∧ ∀ m, g.DependsOn n m → m ∈ placed := by
  refine ⟨List.mem_of_find?_eq_some found, ?_⟩
  simpa [mem_needs] using List.find?_some found

theorem Placed.place (placement : g.Placed placed) (steps : Nat) : g.Placed (g.place placed steps) := by
  induction steps generalizing placed with
  | zero => exact placement
  | succ steps ih =>
    rw [DependencyGraph.place]
    split
    · rename_i n found
      obtain ⟨inside, fresh, ready⟩ := nextReady?_eq_some found
      exact ih (placement.concat inside fresh ready)
    · exact placement

/-! ### All nodes are placed -/

/-- Along the edges of a graph without cycles one comes to an end. -/
theorem Acyclic.wellFounded (acyclic : g.Acyclic) :
    WellFounded fun m n : {n // n ∈ g.nodes} => TransGen g.DependsOn n.1 m.1 := by
  have finite : Finite {n // n ∈ g.nodes} := (List.finite_toSet g.nodes).to_subtype
  have transitive : IsTrans {n // n ∈ g.nodes} fun m n => TransGen g.DependsOn n.1 m.1 :=
    ⟨fun _ _ _ first second => second.trans first⟩
  have irreflexive : Std.Irrefl fun m n : {n // n ∈ g.nodes} => TransGen g.DependsOn n.1 m.1 :=
    ⟨fun n => acyclic n.1⟩
  exact Finite.wellFounded_of_trans_of_irrefl _

theorem Acyclic.nextReady? (wellFormed : g.WellFormed) (acyclic : g.Acyclic)
    (missing : placed.length < g.nodes.length) : ∃ n, g.nextReady? placed = some n := by
  obtain ⟨n, inside, unplaced⟩ : ∃ n ∈ g.nodes, n ∉ placed := by
    by_contra all
    push Not at all
    have fewer := (List.subperm_of_subset wellFormed.distinct all).length_le
    omega
  -- A least missing node is ready, as what it depends on is not missing.
  obtain ⟨⟨k, member⟩, fresh, least⟩ :=
    acyclic.wellFounded.has_min {k | k.1 ∉ placed} ⟨⟨n, inside⟩, unplaced⟩
  rw [← Option.isSome_iff_exists, DependencyGraph.nextReady?, List.find?_isSome]
  refine ⟨k, member, ?_⟩
  have ready : ∀ m, g.DependsOn k m → m ∈ placed := by
    intro m edge
    by_contra later
    exact least ⟨m, wellFormed.needed edge⟩ later (.single edge)
  simpa [mem_needs] using ⟨fresh, ready⟩

theorem length_place (wellFormed : g.WellFormed) (acyclic : g.Acyclic)
    (enough : g.nodes.length ≤ placed.length + steps) :
    g.nodes.length ≤ (g.place placed steps).length := by
  induction steps generalizing placed with
  | zero => exact enough
  | succ steps ih =>
    rw [place]
    split
    · refine ih ?_
      rw [List.length_append, List.length_singleton]
      omega
    · rename_i stuck
      by_contra missing
      obtain ⟨n, found⟩ := acyclic.nextReady? wellFormed (Nat.lt_of_not_le missing)
      rw [stuck] at found
      contradiction

end LakeSchema.DependencyGraph
