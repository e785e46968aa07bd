import LakeSchema.Proofs.Compile.Cycles
import LakeSchema.Proofs.Compile.Search
import Mathlib.Data.List.Chain

/-!
# The path found is a shortest one

The queued nodes stand for paths with their ends first, in the order of their lengths, which differ by
one at most. Whatever a path no longer than the first of them leads to was seen, so a node that is new
has no shorter path than the one that it is queued for (`Layered.next`). Between the tables of a
project the search ends and so does the way back, with a shortest path if there is any
(`build_findPath`).
-/

namespace LakeSchema

open Relation

namespace DependencyGraph

variable {g : DependencyGraph} {start goal n m : DependencyNode} {path other : List DependencyNode}
  {rounds : Nat} {paths : List (List DependencyNode)} {seen : List DependencyNode} {s : Search}
  {a b : String}

/-! ### Paths with their ends first -/

/-- A path along edges, its end first. -/
inductive PathFrom (g : DependencyGraph) (start : DependencyNode) : List DependencyNode → Prop where
  | begin : g.PathFrom start [start]
  | further {n m : DependencyNode} {path : List DependencyNode} :
    g.PathFrom start (n :: path) → g.DependsOn n m → g.PathFrom start (m :: n :: path)

/-! ### Layers -/

/-- What a search holds of lengths before each of its rounds. -/
structure Layered (g : DependencyGraph) (start : DependencyNode) (paths : List (List DependencyNode))
    (seen : List DependencyNode) : Prop where
  along : ∀ path ∈ paths, g.PathFrom start path ∧ path.Nodup ∧ path ⊆ seen
  least : ∀ path ∈ paths, ∀ other, g.PathFrom start other → other.head? = path.head? →
    path.length ≤ other.length
  ordered : paths.Pairwise fun path later => path.length ≤ later.length
  level : ∀ first ∈ paths.head?, ∀ path ∈ paths, path.length ≤ first.length + 1
  /-- A path no longer than the first of them ends at a node that was seen. -/
  near : ∀ first ∈ paths.head?, ∀ n rest, g.PathFrom start (n :: rest) →
    (n :: rest).length ≤ first.length → n ∈ seen

theorem Layered.initial (g : DependencyGraph) (start : DependencyNode) :
    g.Layered start [[start]] [start] where
  along path member := by
    obtain rfl := List.mem_singleton.mp member
    exact ⟨.begin, List.nodup_singleton start, List.Subset.refl _⟩
  least path member other leads _ := by
    obtain rfl := List.mem_singleton.mp member
    cases leads <;> simp
  ordered := List.pairwise_singleton _ _
  level first head path member := by
    obtain rfl := List.mem_singleton.mp member
    obtain rfl := Option.some.inj head
    exact Nat.le_succ _
  near first head n rest leads short := by
    obtain rfl := Option.some.inj head
    cases leads with
    | begin => exact List.mem_singleton_self start
    | further => simp at short

section Round

variable (wellFormed : g.WellFormed)
  (searching : g.Searching start goal (rounds + 1) ((n :: path) :: paths) seen)
  (layered : g.Layered start ((n :: path) :: paths) seen)

include layered

/-- A node that is new is further away than any path as long as the first one leads. -/
theorem Layered.unseen_least (new : m ∈ g.unseen seen n) (leads : g.PathFrom start other)
    (ends : other.head? = some m) : (n :: path).length + 1 ≤ other.length := by
  obtain ⟨k, rest, rfl⟩ := List.exists_cons_of_ne_nil (l := other) (by rintro rfl; cases ends)
  obtain rfl := Option.some.inj ends
  by_contra short
  exact (mem_unseen.mp new).2 (layered.near _ rfl k rest leads (by omega))

include searching

/-- Once no path is left that is as short as the first one was, all that lies one edge
further was seen. -/
theorem Layered.near_next (longer : ∀ entry ∈ paths, (n :: path).length + 1 ≤ entry.length)
    {rest : List DependencyNode} (leads : g.PathFrom start (m :: rest))
    (short : (m :: rest).length ≤ (n :: path).length + 1) : m ∈ seen ++ g.unseen seen n := by
  by_cases within : (m :: rest).length ≤ (n :: path).length
  · exact List.mem_append_left _ (layered.near _ rfl m rest leads within)
  cases leads with
  | begin => exact List.mem_append_left _ searching.begun
  | @further k _ before leads edge =>
    -- The node in front of the last one is nearer than what is left, so it is not there.
    have known : k ∈ seen := layered.near _ rfl k before leads (by simpa using short)
    rcases searching.settled k known with ⟨tail, queued⟩ | ⟨_, closed⟩
    · rcases List.mem_cons.mp queued with same | later
      · obtain ⟨rfl, _⟩ := List.cons.inj same
        by_cases old : m ∈ seen
        · exact List.mem_append_left _ old
        · exact List.mem_append_right _ (mem_unseen.mpr ⟨edge, old⟩)
      · have far := longer _ later
        have close := layered.least _ queued _ leads rfl
        simp only [List.length_cons] at far close short
        omega
    · exact List.mem_append_left _ (closed m edge)

/-- Taking the first path and putting those behind the others that lead one edge further keeps the
layers. -/
theorem Layered.next : g.Layered start (paths ++ (g.unseen seen n).map fun m => m :: n :: path)
    (seen ++ g.unseen seen n) where
  along entry queued := by
    rcases List.mem_append.mp queued with old | new
    · obtain ⟨leads, distinct, inside⟩ := layered.along entry (List.mem_cons_of_mem _ old)
      exact ⟨leads, distinct, List.Subset.trans inside (List.subset_append_left _ _)⟩
    · obtain ⟨m, found, rfl⟩ := List.mem_map.mp new
      obtain ⟨leads, distinct, inside⟩ := layered.along _ List.mem_cons_self
      obtain ⟨edge, fresh⟩ := mem_unseen.mp found
      refine ⟨leads.further edge, List.nodup_cons.mpr ⟨mt (inside ·) fresh, distinct⟩, ?_⟩
      exact List.cons_subset.mpr ⟨List.mem_append_right _ found,
        List.Subset.trans inside (List.subset_append_left _ _)⟩
  least entry queued other leads ends := by
    rcases List.mem_append.mp queued with old | new
    · exact layered.least entry (List.mem_cons_of_mem _ old) other leads ends
    · obtain ⟨m, found, rfl⟩ := List.mem_map.mp new
      exact layered.unseen_least found leads ends
  ordered := by
    refine List.pairwise_append.mpr ⟨layered.ordered.tail, ?_, fun entry old later new => ?_⟩
    · exact List.pairwise_map.mpr (List.pairwise_of_forall fun _ _ => Nat.le_refl _)
    · obtain ⟨m, _, rfl⟩ := List.mem_map.mp new
      exact layered.level _ rfl entry (List.mem_cons_of_mem _ old)
  level first head entry queued := by
    have lower : (n :: path).length ≤ first.length := by
      rcases List.mem_append.mp (List.mem_of_head? head) with old | new
      · exact List.rel_of_pairwise_cons layered.ordered old
      · obtain ⟨m, _, rfl⟩ := List.mem_map.mp new
        exact Nat.le_succ _
    rcases List.mem_append.mp queued with old | new
    · have upper := layered.level _ rfl entry (List.mem_cons_of_mem _ old)
      omega
    · obtain ⟨m, _, rfl⟩ := List.mem_map.mp new
      exact Nat.succ_le_succ lower
  near first head m rest leads short := by
    cases paths with
    | nil =>
      obtain ⟨k, _, rfl⟩ := List.mem_map.mp (List.mem_of_head? head)
      exact layered.near_next searching nofun leads short
    | cons second paths =>
      obtain rfl := Option.some.inj head
      by_cases same : second.length ≤ (n :: path).length
      · exact List.mem_append_left _ (layered.near _ rfl m rest leads (Nat.le_trans short same))
      · refine layered.near_next searching (fun entry later => ?_) leads ?_
        · have sorted := layered.ordered.tail
          rcases List.mem_cons.mp later with rfl | later
          · omega
          · have order := List.rel_of_pairwise_cons sorted later
            omega
        · have upper := layered.level _ rfl second (List.mem_cons_of_mem _ List.mem_cons_self)
          omega

end Round

/-! ### The whole search -/

/-- A path to a node, without repetitions, no longer than any other. -/
structure LeastPath (g : DependencyGraph) (start goal : DependencyNode) (path : List DependencyNode) :
    Prop where
  leads : g.PathFrom start path
  ends : path.head? = some goal
  distinct : path.Nodup
  least : ∀ other, g.PathFrom start other → other.head? = some goal → path.length ≤ other.length

/-- An answer of a search: a path, its end last, that is no longer than any other, or none if there is
no path. -/
structure Answers (g : DependencyGraph) (start goal : DependencyNode)
    (answer : Option (List DependencyNode)) : Prop where
  exact : answer.isSome ↔ ReflTransGen g.DependsOn start goal
  least : ∀ path ∈ answer, g.LeastPath start goal path.reverse

theorem Searching.run_nil (searching : g.Searching start goal rounds [] s.visited)
    (traces : s.Traces []) (wayBack : Nat) :
    ∃ answer, Search.run g goal wayBack (rounds + 1) s = some answer ∧ g.Answers start goal answer := by
  have empty : s.queue = [] := List.map_eq_nil_iff.mp traces.ends.symm
  exact ⟨none, Search.run_nil empty, by simpa using searching.not_reached, nofun⟩

/-- The search ends with an answer, and so does the way back. -/
theorem Searching.run (wellFormed : g.WellFormed)
    (searching : g.Searching start goal rounds paths s.visited)
    (layered : g.Layered start paths s.visited) (traces : s.Traces paths)
    (enough : g.nodes.length ≤ wayBack) :
    ∃ answer, Search.run g goal wayBack (rounds + 1) s = some answer ∧ g.Answers start goal answer := by
  induction rounds generalizing paths s with
  | zero =>
    obtain rfl := searching.paths_eq_nil
    exact searching.run_nil traces wayBack
  | succ rounds ih =>
    cases paths with
    | nil => exact searching.run_nil traces wayBack
    | cons entry paths =>
      obtain ⟨n, path, rfl, reached⟩ := searching.reached entry List.mem_cons_self
      obtain ⟨queue, queued, later⟩ := traces.exists_queue
      by_cases met : n = goal
      · subst met
        obtain ⟨trail, -⟩ := traces.trails _ List.mem_cons_self
        obtain ⟨leads, distinct, inside⟩ := layered.along _ List.mem_cons_self
        have short : (n :: path).length ≤ g.nodes.length :=
          (List.subperm_of_subset distinct (List.Subset.trans inside searching.inside)).length_le
        have least := layered.least _ List.mem_cons_self
        refine ⟨some (path.reverse ++ [n]), ?_, iff_of_true rfl reached, fun found same => ?_⟩
        · rw [Search.run_goal queued, trail.walkBack (Nat.lt_of_lt_of_le path.length.lt_succ_self
            (short.trans enough))]
          rfl
        · obtain rfl := Option.some.inj same
          rw [List.reverse_append, List.reverse_reverse]
          exact ⟨leads, rfl, distinct, least⟩
      · rw [Search.run_other wellFormed queued met]
        exact ih (searching.next wellFormed met) (layered.next searching) (traces.next later)

/-- With more rounds than there are nodes, and however many more, the search has an answer. -/
theorem findPath_eq (wellFormed : g.WellFormed) (first : node? g.nodes .table a = some start)
    (last : node? g.nodes .table b = some goal) : ∃ answer : Option (List DependencyNode),
      (∀ rounds, g.nodes.length < rounds →
        g.findPath rounds a b = some (answer.map fun nodes => nodes.map (·.id))) ∧
      g.Answers start goal answer := by
  have inside : start ∈ g.nodes := List.mem_of_find?_eq_some first
  obtain ⟨answer, ends, answers⟩ := Searching.run (s := .start start) wellFormed
    (.initial inside goal) (.initial g start) (.initial start) g.nodes.length.le_succ
  refine ⟨answer, fun rounds enough => ?_, answers⟩
  rw [findPath, first, last]
  exact congrArg (Option.map _) (Search.run_mono enough enough ends)

/-- The search finds a path exactly if there is one. -/
theorem path?_isSome_iff (wellFormed : g.WellFormed) :
    (g.path? a b).isSome ↔ ∃ n m, node? g.nodes .table a = some n ∧ node? g.nodes .table b = some m ∧
      ReflTransGen g.DependsOn n m := by
  cases first : node? g.nodes .table a with
  | none => simp [path?, findPath, first]
  | some n =>
    cases last : node? g.nodes .table b with
    | none => simp [path?, findPath, first, last]
    | some m =>
      obtain ⟨answer, found, answers⟩ := findPath_eq wellFormed first last
      rw [path?, found _ g.nodes.length.lt_succ_self]
      simpa using answers.exact

end DependencyGraph

namespace Project
open DependencyGraph

variable {p : Project} {start goal n : DependencyNode} {path : List DependencyNode}
  {ids : List String} {a b : String}

/-! ### Paths between tables -/

/-- Tables from `a` to `b`, each depending on the next one, none of them twice and as few as
possible. -/
structure ShortestPath (p : Project) (a b : String) (path : List String) : Prop where
  begins : path.head? = some a
  ends : path.getLast? = some b
  linked : path.IsChain p.Needs
  distinct : path.Nodup
  shortest : ∀ other : List String, other.head? = some a → other.getLast? = some b →
    other.IsChain p.Needs → path.length ≤ other.length

theorem table_of_mem_pathFrom (inside : start ∈ (build p).nodes) (kind : start.kind = .table)
    (leads : (build p).PathFrom start path) : ∀ n ∈ path, n ∈ (build p).nodes ∧ n.kind = .table := by
  induction leads with
  | begin => exact List.forall_mem_singleton.mpr ⟨inside, kind⟩
  | further _ edge ih =>
    have wellFormed := build_wellFormed p
    exact List.forall_mem_cons.mpr ⟨⟨wellFormed.needed edge, wellFormed.table edge⟩, ih⟩

/-- The tables of a path depend on each other in turn. -/
theorem pathFrom_ids (inside : start ∈ (build p).nodes) (kind : start.kind = .table)
    (leads : (build p).PathFrom start path) :
    (path.map (·.id)).getLast? = some start.id ∧
      (path.map (·.id)).IsChain fun b a => p.Needs a b := by
  induction leads with
  | begin => exact ⟨rfl, .singleton _⟩
  | @further n m path leads edge ih =>
    obtain ⟨before, table⟩ := table_of_mem_pathFrom inside kind leads n List.mem_cons_self
    have wellFormed := build_wellFormed p
    have needs : p.Needs n.id m.id :=
      (dependsOn_iff_needs before (wellFormed.needed edge) table (wellFormed.table edge)).mp edge
    obtain ⟨begins, linked⟩ := ih
    refine ⟨?_, .cons_cons needs linked⟩
    rwa [List.map_cons, List.map_cons, List.getLast?_cons_cons]

/-- Tables that depend on each other in turn make up a path. -/
theorem exists_pathFrom (inside : start ∈ (build p).nodes) (kind : start.kind = .table)
    (begins : ids.getLast? = some start.id) (linked : ids.IsChain fun b a => p.Needs a b) :
    ∃ path, (build p).PathFrom start path ∧ path.map (·.id) = ids := by
  induction ids with
  | nil => cases begins
  | cons b ids ih =>
    cases ids with
    | nil =>
      obtain rfl := Option.some.inj begins
      exact ⟨[start], .begin, rfl⟩
    | cons a ids =>
      rw [List.getLast?_cons_cons] at begins
      obtain ⟨edge, linked⟩ := List.isChain_cons_cons.mp linked
      obtain ⟨path, leads, same⟩ := ih begins linked
      obtain ⟨n, path, rfl, rfl, rfl⟩ := List.map_eq_cons_iff.mp same
      obtain ⟨m, after, ends, rfl⟩ := exists_tableNode edge.2.2.1
      obtain ⟨before, table⟩ := table_of_mem_pathFrom inside kind leads n List.mem_cons_self
      exact ⟨m :: n :: path,
        leads.further ((dependsOn_iff_needs before after table ends).mpr edge), rfl⟩

theorem shortestPath_of_leastPath (inside : start ∈ (build p).nodes) (kind : start.kind = .table)
    (least : (build p).LeastPath start goal path.reverse) :
    p.ShortestPath start.id goal.id (path.map (·.id)) := by
  have tables := table_of_mem_pathFrom inside kind least.leads
  obtain ⟨there, table⟩ := tables goal (List.mem_of_head? least.ends)
  obtain ⟨begins, linked⟩ := pathFrom_ids inside kind least.leads
  rw [List.map_reverse, List.getLast?_reverse] at begins
  rw [List.map_reverse, List.isChain_reverse] at linked
  have ends := least.ends
  rw [List.head?_reverse] at ends
  refine ⟨begins, by rw [List.getLast?_map, ends]; rfl, linked, ?_, ?_⟩
  · refine List.Nodup.map_on (fun n first m second same => ?_) (List.nodup_reverse.mp least.distinct)
    obtain ⟨before, kind⟩ := tables n (List.mem_reverse.mpr first)
    obtain ⟨after, other⟩ := tables m (List.mem_reverse.mpr second)
    exact tableNode_inj before after kind other same
  · intro ids first last linked
    rw [← List.getLast?_reverse] at first
    rw [← List.head?_reverse] at last
    obtain ⟨other, leads, same⟩ := exists_pathFrom inside kind first (List.isChain_reverse.mpr linked)
    rw [← same, List.head?_map] at last
    obtain ⟨n, head, id⟩ := Option.map_eq_some_iff.mp last
    obtain ⟨before, other⟩ := table_of_mem_pathFrom inside kind leads n (List.mem_of_head? head)
    obtain rfl := tableNode_inj before there other table id
    have short := least.least _ leads head
    have lengths := congrArg List.length same
    simp only [List.length_map, List.length_reverse] at short lengths ⊢
    omega

theorem node?_table_eq_some_iff {id : String} : node? (build p).nodes .table id = some n ↔
    n ∈ (build p).nodes ∧ n.kind = .table ∧ n.id = id :=
  node?_eq_some_iff (nodesOf_entities_nodup p)

theorem exists_node?_iff {id : String} :
    (∃ n, node? (build p).nodes .table id = some n) ↔ id ∈ p.tables.map (·.id) := by
  simp only [node?_table_eq_some_iff]
  constructor
  · rintro ⟨n, inside, kind, rfl⟩
    exact tableNode_listed inside kind
  · exact exists_tableNode

/-- Between the tables of a project, both loops of the search end whatever cycles there are: with more
rounds than there are nodes they are never cut off. The search finds a path exactly if there is one, and
a shortest one. -/
theorem build_findPath (p : Project) (a b : String) :
    (∀ rounds, (build p).nodes.length < rounds →
      (build p).findPath rounds a b = some ((build p).path? a b)) ∧
    (((build p).path? a b).isSome ↔
      a ∈ p.tables.map (·.id) ∧ b ∈ p.tables.map (·.id) ∧ ReflTransGen p.Needs a b) ∧
    ∀ path ∈ (build p).path? a b, p.ShortestPath a b path := by
  by_cases known : a ∈ p.tables.map (·.id) ∧ b ∈ p.tables.map (·.id)
  · obtain ⟨start, first⟩ := exists_node?_iff.mpr known.1
    obtain ⟨goal, last⟩ := exists_node?_iff.mpr known.2
    obtain ⟨answer, ends, exact, least⟩ := findPath_eq (build_wellFormed p) first last
    obtain ⟨inside, kind, rfl⟩ := node?_table_eq_some_iff.mp first
    obtain ⟨there, table, rfl⟩ := node?_table_eq_some_iff.mp last
    have found : (build p).path? start.id goal.id = answer.map fun nodes => nodes.map (·.id) := by
      rw [path?, ends _ (Nat.lt_succ_self _)]
      rfl
    rw [found]
    refine ⟨ends, ?_, fun path found => ?_⟩
    · rw [Option.isSome_map, exact, reflTransGen_iff_needs inside there kind table]
      exact ⟨fun leads => ⟨known.1, known.2, leads⟩, fun both => both.2.2⟩
    · obtain ⟨nodes, answered, rfl⟩ := Option.map_eq_some_iff.mp found
      exact shortestPath_of_leastPath inside kind (least nodes answered)
  · have ends (rounds : Nat) : (build p).findPath rounds a b = some none := by
      rw [findPath]
      split
      · rename_i first last
        exact absurd ⟨exists_node?_iff.mp ⟨_, first⟩, exists_node?_iff.mp ⟨_, last⟩⟩ known
      · rfl
    have none : (build p).path? a b = none := by
      rw [path?, ends]
      rfl
    rw [none]
    exact ⟨fun rounds _ => ends rounds, by simpa using fun first last _ => known ⟨first, last⟩, nofun⟩

/-- Through a ring of tables to another one, and no way back. -/
theorem twoRings_path :
    (build twoRings).findPath 6 "V" "U" = some (some ["V", "R", "S", "T", "U"]) ∧
      twoRings.ShortestPath "V" "U" ["V", "R", "S", "T", "U"] ∧
      (build twoRings).findPath 6 "U" "V" = some none ∧ ¬ ReflTransGen twoRings.Needs "U" "V" := by
  have there : (build twoRings).path? "V" "U" = some ["V", "R", "S", "T", "U"] := by decide +kernel
  have back : (build twoRings).path? "U" "V" = none := by decide +kernel
  have few : (build twoRings).nodes.length < 6 := by decide +kernel
  obtain ⟨ends, -, shortest⟩ := build_findPath twoRings "V" "U"
  obtain ⟨ends', exact, -⟩ := build_findPath twoRings "U" "V"
  rw [there] at ends shortest
  rw [back] at ends' exact
  refine ⟨ends 6 few, shortest _ rfl, ends' 6 few, fun leads => ?_⟩
  cases exact.mpr ⟨by decide, by decide, leads⟩

end Project
end LakeSchema
