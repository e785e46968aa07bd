import LakeSchema.Proofs.Compile.Reach
import Mathlib.Data.List.Perm.Subperm

/-!
# A search and the paths that it follows

`Search` keeps nodes and from where each of them was met. The queued nodes stand for paths from the
start, their ends first, along which the parents lead back (`Search.Traces`), so that walking back ends
and gives the path (`Search.Trail.walkBack`). `Searching` is what holds of these paths before each
round: what was seen can be reached, what was seen and is no longer queued has only edges to what was
seen, and there are rounds left for every path that may still be queued.
-/

namespace LakeSchema.DependencyGraph

open Relation

variable {g : DependencyGraph} {start goal n m : DependencyNode} {path : List DependencyNode}
  {rounds rounds' wayBack wayBack' : Nat} {paths : List (List DependencyNode)}
  {seen queue : List DependencyNode} {s : Search}

/-- The nodes that a search comes upon at a node. -/
def unseen (g : DependencyGraph) (seen : List DependencyNode) (n : DependencyNode) :
    List DependencyNode :=
  (g.needs n).filter fun m => !seen.contains m

theorem mem_unseen : m ∈ g.unseen seen n ↔ g.DependsOn n m ∧ m ∉ seen := by
  simp [unseen, mem_needs]

/-! ### Rounds -/

namespace Search

theorem foldl_meet {neighbours : List DependencyNode} (distinct : neighbours.Nodup) (n : DependencyNode)
    (s : Search) :
    let fresh := neighbours.filter fun m => !s.visited.contains m
    neighbours.foldl (meet n) s =
      { queue := s.queue ++ fresh
        visited := s.visited ++ fresh
        parent := fun m => if m ∈ fresh then some n else s.parent m } := by
  induction neighbours generalizing s with
  | nil => simp
  | cons m rest ih =>
    obtain ⟨other, distinct⟩ := List.nodup_cons.mp distinct
    rw [List.foldl_cons]
    by_cases known : m ∈ s.visited
    · have same : meet n s m = s := if_pos (by simpa using known)
      rw [same, List.filter_cons_of_neg (by simpa using known)]
      exact ih distinct s
    · have met : meet n s m = ⟨s.queue ++ [m], s.visited ++ [m],
          fun k => if k == m then some n else s.parent k⟩ := if_neg (by simpa using known)
      have fresh : (rest.filter fun k => !(s.visited ++ [m]).contains k) =
          rest.filter fun k => !s.visited.contains k := by
        refine List.filter_congr fun k member => ?_
        have apart : k ≠ m := fun same => other (same ▸ member)
        simp [apart]
      rw [met, ih distinct, List.filter_cons_of_pos (by simpa using known)]
      simp only [fresh, List.append_assoc, List.singleton_append, List.mem_cons]
      congr 1
      funext k
      by_cases here : k = m <;> simp [here]

/-- The search behind a node, which leaves `queue`. -/
def advance (g : DependencyGraph) (s : Search) (n : DependencyNode) (queue : List DependencyNode) :
    Search where
  queue := queue ++ g.unseen s.visited n
  visited := s.visited ++ g.unseen s.visited n
  parent := fun m => if m ∈ g.unseen s.visited n then some n else s.parent m

theorem run_nil (empty : s.queue = []) : run g goal wayBack (rounds + 1) s = some none := by
  rw [run, empty]

theorem run_goal (queued : s.queue = goal :: queue) :
    run g goal wayBack (rounds + 1) s = (s.walkBack wayBack goal [goal]).map some := by
  rw [run, queued]
  exact if_pos (beq_self_eq_true goal)

theorem run_other (wellFormed : g.WellFormed) (queued : s.queue = n :: queue) (other : n ≠ goal) :
    run g goal wayBack (rounds + 1) s = run g goal wayBack rounds (s.advance g n queue) := by
  rw [run, queued]
  exact (if_neg (by simpa using other)).trans
    (congrArg (run g goal wayBack rounds) (foldl_meet (needs_nodup wellFormed n) n { s with queue }))

/-! ### More rounds -/

/-- A way back that has ended is the same with more rounds. -/
theorem walkBack_mono {behind found : List DependencyNode} (more : rounds ≤ rounds')
    (ends : s.walkBack rounds n behind = some found) : s.walkBack rounds' n behind = some found := by
  induction rounds generalizing rounds' n behind with
  | zero => contradiction
  | succ rounds ih =>
    obtain ⟨rounds', rfl⟩ := Nat.exists_eq_add_of_le' (Nat.le_of_add_left_le more)
    rw [walkBack] at ends ⊢
    split
    · simpa [*] using ends
    · rename_i m parent
      rw [parent] at ends
      exact ih (by omega) ends

/-- A search that has ended gives the same answer with more rounds. -/
theorem run_mono {answer : Option (List DependencyNode)} (longer : wayBack ≤ wayBack')
    (more : rounds ≤ rounds') (ends : run g goal wayBack rounds s = some answer) :
    run g goal wayBack' rounds' s = some answer := by
  induction rounds generalizing rounds' s with
  | zero => contradiction
  | succ rounds ih =>
    obtain ⟨rounds', rfl⟩ := Nat.exists_eq_add_of_le' (Nat.le_of_add_left_le more)
    rw [run] at ends ⊢
    split
    · simpa [*] using ends
    · rename_i n queue queued
      rw [queued] at ends
      dsimp only at ends
      split
      · rename_i met
        rw [if_pos met] at ends
        obtain ⟨found, walked, rfl⟩ := Option.map_eq_some_iff.mp ends
        rw [walkBack_mono longer walked]
        rfl
      · rename_i other
        rw [if_neg other] at ends
        exact ih (by omega) ends

/-! ### Ways back -/

/-- The parents lead back along a path, whose end comes first, to a node that has none. -/
inductive Trail (s : Search) : List DependencyNode → Prop where
  | first {n : DependencyNode} : s.parent n = none → s.Trail [n]
  | further {n m : DependencyNode} {path : List DependencyNode} :
    s.parent m = some n → s.Trail (n :: path) → s.Trail (m :: n :: path)

/-- Walking back along a trail comes to an end. -/
theorem Trail.walkBack (trail : s.Trail (n :: path)) (enough : path.length < rounds)
    (behind : List DependencyNode) : s.walkBack rounds n behind = some (path.reverse ++ behind) := by
  generalize whole : n :: path = trodden at trail
  induction trail generalizing n path behind rounds with
  | first none =>
    cases whole
    obtain ⟨rounds, rfl⟩ := Nat.exists_eq_add_of_le' (Nat.one_le_of_lt enough)
    rw [Search.walkBack, none]
    rfl
  | @further k m before parent _ ih =>
    cases whole
    obtain ⟨rounds, rfl⟩ := Nat.exists_eq_add_of_le' (Nat.one_le_of_lt enough)
    rw [Search.walkBack, parent]
    dsimp only
    rw [ih (Nat.lt_of_succ_lt_succ enough) (k :: behind) rfl]
    simp

theorem Trail.congr {other : Search} (trail : s.Trail path)
    (same : ∀ n ∈ path, other.parent n = s.parent n) : other.Trail path := by
  induction trail with
  | first none => exact .first ((same _ List.mem_cons_self).trans none)
  | further parent _ ih =>
    exact .further ((same _ List.mem_cons_self).trans parent)
      (ih fun n member => same n (List.mem_cons_of_mem _ member))

/-- The queued nodes are the ends of paths along which the parents lead back. -/
structure Traces (s : Search) (paths : List (List DependencyNode)) : Prop where
  ends : paths.map List.head? = s.queue.map some
  trails : ∀ path ∈ paths, s.Trail path ∧ path ⊆ s.visited

theorem Traces.initial (n : DependencyNode) : (Search.start n).Traces [[n]] where
  ends := rfl
  trails path member := by
    obtain rfl := List.mem_singleton.mp member
    exact ⟨.first rfl, List.Subset.refl _⟩

theorem Traces.exists_queue (traces : s.Traces ((n :: path) :: paths)) :
    ∃ queue, s.queue = n :: queue ∧ paths.map List.head? = queue.map some := by
  have ends := traces.ends
  cases queued : s.queue with
  | nil => simp [queued] at ends
  | cons first queue =>
    rw [queued, List.map_cons, List.map_cons] at ends
    obtain ⟨same, later⟩ := List.cons.inj ends
    obtain rfl := Option.some.inj same
    exact ⟨queue, rfl, later⟩

theorem Traces.next (traces : s.Traces ((n :: path) :: paths))
    (later : paths.map List.head? = queue.map some) :
    (s.advance g n queue).Traces (paths ++ (g.unseen s.visited n).map fun m => m :: n :: path) where
  ends := by simp [advance, later]
  trails := by
    -- Only nodes that were not met before get a parent.
    have kept : ∀ entry ∈ (n :: path) :: paths,
        (s.advance g n queue).Trail entry ∧ entry ⊆ (s.advance g n queue).visited := by
      intro entry queued
      obtain ⟨trail, inside⟩ := traces.trails entry queued
      refine ⟨trail.congr fun k member => if_neg fun new => ?_, fun k member => ?_⟩
      · exact (mem_unseen.mp new).2 (inside member)
      · exact List.mem_append_left _ (inside member)
    intro entry queued
    rcases List.mem_append.mp queued with old | new
    · exact kept entry (List.mem_cons_of_mem _ old)
    · obtain ⟨m, found, rfl⟩ := List.mem_map.mp new
      obtain ⟨trail, inside⟩ := kept _ List.mem_cons_self
      exact ⟨.further (if_pos found) trail,
        List.cons_subset.mpr ⟨List.mem_append_right _ found, inside⟩⟩

end Search

/-! ### What was seen -/

/-- What holds of a search for `goal` from `start` before each of its rounds. -/
structure Searching (g : DependencyGraph) (start goal : DependencyNode) (rounds : Nat)
    (paths : List (List DependencyNode)) (seen : List DependencyNode) : Prop where
  begun : start ∈ seen
  inside : seen ⊆ g.nodes
  distinct : seen.Nodup
  reached : ∀ path ∈ paths, ∃ n rest, path = n :: rest ∧ ReflTransGen g.DependsOn start n
  /-- A node that was seen is still to be taken from the queue, or was not the goal. -/
  settled : ∀ n ∈ seen, (∃ rest, n :: rest ∈ paths) ∨
    n ≠ goal ∧ ∀ m, g.DependsOn n m → m ∈ seen
  enough : g.nodes.length + paths.length ≤ rounds + seen.length

theorem Searching.initial (inside : start ∈ g.nodes) (goal : DependencyNode) :
    g.Searching start goal g.nodes.length [[start]] [start] where
  begun := List.mem_singleton_self start
  inside := List.cons_subset.mpr ⟨inside, List.nil_subset _⟩
  distinct := List.nodup_singleton start
  reached path member := ⟨start, [], List.mem_singleton.mp member, .refl⟩
  settled n member := .inl ⟨[], by simp [List.mem_singleton.mp member]⟩
  enough := by simp

/-- When no path is left, none leads to the goal: what was seen is closed under edges. -/
theorem Searching.not_reached (searching : g.Searching start goal rounds [] seen) :
    ¬ ReflTransGen g.DependsOn start goal := by
  intro path
  have closed : ∀ n ∈ seen, n ≠ goal ∧ ∀ m, g.DependsOn n m → m ∈ seen := fun n member =>
    (searching.settled n member).resolve_left fun ⟨_, queued⟩ => List.not_mem_nil queued
  have found : ∀ {m}, ReflTransGen g.DependsOn start m → m ∈ seen := by
    intro m path
    induction path with
    | refl => exact searching.begun
    | tail _ edge ih => exact (closed _ ih).2 _ edge
  exact (closed goal (found path)).1 rfl

/-- Rounds are left as long as there is a path. -/
theorem Searching.paths_eq_nil (searching : g.Searching start goal 0 paths seen) : paths = [] := by
  have few : seen.length ≤ g.nodes.length :=
    (List.subperm_of_subset searching.distinct searching.inside).length_le
  have enough := searching.enough
  exact List.length_eq_zero_iff.mp (by omega)

/-- A path that does not end at the goal makes place for those that lead one edge further. -/
theorem Searching.next (wellFormed : g.WellFormed)
    (searching : g.Searching start goal (rounds + 1) ((n :: path) :: paths) seen) (other : n ≠ goal) :
    g.Searching start goal rounds (paths ++ (g.unseen seen n).map fun m => m :: n :: path)
      (seen ++ g.unseen seen n) where
  begun := List.mem_append_left _ searching.begun
  inside := List.append_subset.mpr
    ⟨searching.inside, fun m new => wellFormed.needed (mem_unseen.mp new).1⟩
  distinct := by
    refine List.nodup_append.mpr ⟨searching.distinct, (needs_nodup wellFormed n).filter _, ?_⟩
    rintro m old _ new rfl
    exact (mem_unseen.mp new).2 old
  reached entry queued := by
    rcases List.mem_append.mp queued with old | new
    · exact searching.reached entry (List.mem_cons_of_mem _ old)
    · obtain ⟨m, found, rfl⟩ := List.mem_map.mp new
      obtain ⟨_, _, same, reached⟩ := searching.reached _ List.mem_cons_self
      obtain ⟨rfl, _⟩ := List.cons.inj same
      exact ⟨m, _, rfl, reached.tail (mem_unseen.mp found).1⟩
  settled m member := by
    rcases List.mem_append.mp member with old | new
    · rcases searching.settled m old with ⟨rest, queued⟩ | ⟨apart, closed⟩
      · rcases List.mem_cons.mp queued with same | later
        · obtain ⟨rfl, _⟩ := List.cons.inj same
          refine .inr ⟨other, fun k edge => List.mem_append.mpr ?_⟩
          by_cases known : k ∈ seen
          · exact .inl known
          · exact .inr (mem_unseen.mpr ⟨edge, known⟩)
        · exact .inl ⟨rest, List.mem_append_left _ later⟩
      · exact .inr ⟨apart, fun k edge => List.mem_append_left _ (closed k edge)⟩
    · exact .inl ⟨n :: path, List.mem_append_right _ (List.mem_map_of_mem new)⟩
  enough := by
    have before := searching.enough
    simp only [List.length_cons, List.length_append, List.length_map] at before ⊢
    omega

end LakeSchema.DependencyGraph
