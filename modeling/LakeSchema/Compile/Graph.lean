import LakeSchema.Schema.Error
import LakeSchema.Schema.Project

/-!
# The dependency graph

An edge leads from a table or view to a table that has to be created before it. Tables depend on
the tables that they refer to, through a relationship or a field, views on the tables they read.
`DependencyGraph.order?` is the creation order, `cycles` what stands in its way.
-/

namespace LakeSchema

/-- A table or view; `order` is its place in the project, tables first and traditional views
last. -/
structure DependencyNode where
  kind : EntityKind
  id : String
  order : Nat
deriving DecidableEq

/-- Edges stand in the order in which they were found and lead from the dependent to the table. -/
structure DependencyGraph where
  nodes : List DependencyNode
  edges : List (DependencyNode × DependencyNode)

namespace DependencyGraph

/-! ### Building -/

def entities (p : Project) : List (EntityKind × String) :=
  p.tables.map (fun t => (.table, t.id)) ++ p.metricViews.map (fun v => (.metricView, v.id)) ++
    p.traditionalViews.map (fun v => (.traditionalView, v.id))

/-- One node for each kind and identifier, at the first place where they occur. -/
def nodesFrom (order : Nat) (found : List DependencyNode) :
    List (EntityKind × String) → List DependencyNode
  | [] => found
  | (kind, id) :: rest =>
    if found.any fun n => n.kind == kind && n.id == id then nodesFrom (order + 1) found rest
    else nodesFrom (order + 1) (found ++ [⟨kind, id, order⟩]) rest

def nodesOf (p : Project) : List DependencyNode :=
  nodesFrom 0 [] (entities p)

def node? (nodes : List DependencyNode) (kind : EntityKind) (id : String) :
    Option DependencyNode :=
  nodes.find? fun n => n.kind == kind && n.id == id

/-- Pairs of a dependent table and a table that it depends on, other than itself. -/
def tablePairs (p : Project) : List (String × String) :=
  (p.relationships.map (fun r => (r.dependent.table, r.sourceTable)) ++
    p.tables.flatMap fun t => t.fields.filterMap fun f =>
      f.reference.map fun r => (t.id, r.table)).filter fun pair => pair.1 != pair.2

/-- The dependencies of a project by kind and identifier of the dependent. -/
def dependencies (p : Project) : List ((EntityKind × String) × String) :=
  (tablePairs p).map (fun pair => ((.table, pair.1), pair.2)) ++
    p.metricViews.flatMap (fun v => v.tables.map fun table => ((.metricView, v.id), table)) ++
    p.traditionalViews.flatMap
      (fun v => v.referencedTables.map fun table => ((.traditionalView, v.id), table))

/-- The edge of a dependency both ends of which exist. -/
def edge? (nodes : List DependencyNode) (dependency : (EntityKind × String) × String) :
    Option (DependencyNode × DependencyNode) := do
  let dependent ← node? nodes dependency.1.1 dependency.1.2
  let table ← node? nodes .table dependency.2
  some (dependent, table)

def build (p : Project) : DependencyGraph :=
  let nodes := nodesOf p
  ⟨nodes, ((dependencies p).filterMap (edge? nodes)).eraseDups⟩

/-! ### Neighbours -/

/-- What a node depends on, the latest edge first. -/
def needs (g : DependencyGraph) (n : DependencyNode) : List DependencyNode :=
  (g.edges.reverse.filter (·.1 == n)).map Prod.snd

/-- The identifiers of the tables that a table depends on, in project order. -/
def dependenciesOf (g : DependencyGraph) (table : String) : List String :=
  match node? g.nodes .table table with
  | none => []
  | some n => ((g.nodes.filter (g.needs n).contains)).map (·.id)

/-! ### Cycles -/

/-- The nodes that can be reached from `reached` in at most `steps` further steps. -/
def reachFrom (g : DependencyGraph) (reached : List DependencyNode) : (steps : Nat) →
    List DependencyNode
  | 0 => reached
  | steps + 1 =>
    let ahead := reached.flatMap g.needs
    let fresh := g.nodes.filter fun n => !reached.contains n && ahead.contains n
    if fresh.isEmpty then reached else g.reachFrom (reached ++ fresh) steps

def reachable (g : DependencyGraph) (n : DependencyNode) : List DependencyNode :=
  g.reachFrom [n] g.nodes.length

/-- The sets of nodes that reach each other, those of the first node first. -/
def components (g : DependencyGraph) : List (List DependencyNode) :=
  let reach := g.nodes.map fun n => (n, g.reachable n)
  (reach.map fun n =>
    (reach.filter fun m => n.2.contains m.1 && m.2.contains n.1).map Prod.fst).eraseDups

/-- Inserts an item in front of those with keys that are not less. -/
def insertBy {α : Type} (key : α → Nat) (x : α) : List α → List α
  | [] => [x]
  | y :: rest => if key x ≤ key y then x :: y :: rest else y :: insertBy key x rest

/-- The items by their keys, those with the same key as they were. -/
def sortBy {α : Type} (key : α → Nat) (items : List α) : List α :=
  items.foldr (insertBy key) []

/-- The place of the first node; a list without nodes comes before all others. -/
def firstPlace : List DependencyNode → Nat
  | [] => 0
  | n :: _ => n.order + 1

/-- The cycles among the strongly connected components of a graph, which may be listed in any order:
the tables of each in project order, by their first tables. -/
def cyclesAmong (components : List (List DependencyNode)) : List (List DependencyNode) :=
  let tables := (components.filter fun c => 1 < c.length).map fun c =>
    sortBy (·.order) (c.filter (·.kind == .table))
  sortBy firstPlace (tables.filter fun c => 1 < c.length)

/-- The sets of tables that depend on each other, by their first tables. -/
def cycles (g : DependencyGraph) : List (List String) :=
  (cyclesAmong g.components).map fun c => c.map (·.id)

def cycleErrors (g : DependencyGraph) : List SchemaError :=
  g.cycles.map .cyclicDependency

/-! ### Order -/

/-- The nodes that depend on a node directly, the latest edge first. -/
def dependents (g : DependencyGraph) (n : DependencyNode) : List DependencyNode :=
  (g.edges.reverse.filter (·.2 == n)).map Prod.fst

/-- A creation order in the making: the nodes placed so far, those that are ready to be placed by
their place in the project, and how many dependencies of each node are still to be placed. -/
structure Countdown where
  placed : List DependencyNode
  ready : List DependencyNode
  remaining : DependencyNode → Int

namespace Countdown

def start (g : DependencyGraph) : Countdown where
  placed := []
  ready := g.nodes.filter fun n => (g.needs n).length == 0
  remaining := fun n => (g.needs n).length

def enqueue (n : DependencyNode) : List DependencyNode → List DependencyNode
  | [] => [n]
  | m :: rest => if n.order < m.order then n :: m :: rest else m :: enqueue n rest

/-- Counts down the dependencies of a node, which is ready when none is left. -/
def release (c : Countdown) (n : DependencyNode) : Countdown :=
  let left := c.remaining n - 1
  { c with
    ready := if left == 0 then enqueue n c.ready else c.ready
    remaining := fun m => if m == n then left else c.remaining m }

def place? (c : Countdown) : Option (DependencyNode × Countdown) :=
  match c.ready with
  | [] => none
  | n :: ready => some (n, { c with placed := c.placed ++ [n], ready })

/-- Places a node and counts it off for all that depend on it. -/
def next? (g : DependencyGraph) (c : Countdown) : Option Countdown :=
  c.place?.map fun (n, c) => (g.dependents n).foldl release c

def run (g : DependencyGraph) (c : Countdown) : (rounds : Nat) → Countdown
  | 0 => c
  | rounds + 1 =>
    match c.next? g with
    | some c => c.run g rounds
    | none => c

end Countdown

/-- All nodes, each after those it depends on, in project order as far as that allows; or the
cycles that make it impossible. Every round places a node, so their number bounds the rounds. -/
def order? (g : DependencyGraph) : Except (List SchemaError) (List DependencyNode) :=
  let placed := ((Countdown.start g).run g g.nodes.length).placed
  if placed.length < g.nodes.length then .error g.cycleErrors else .ok placed

/-! ### Paths -/

/-- A breadth first search under way: the nodes to look at next, those met so far, and from which node
each of them was met. -/
structure Search where
  queue : List DependencyNode
  visited : List DependencyNode
  parent : DependencyNode → Option DependencyNode

namespace Search

def start (n : DependencyNode) : Search where
  queue := [n]
  visited := [n]
  parent := fun _ => none

/-- Queues a neighbour of a node, unless it was met before. -/
def meet (n : DependencyNode) (s : Search) (m : DependencyNode) : Search :=
  if s.visited.contains m then s
  else
    { queue := s.queue ++ [m]
      visited := s.visited ++ [m]
      parent := fun k => if k == m then some n else s.parent k }

/-- The way to a node, from each parent to the one before it, in front of `path`. Nothing bounds this
loop but `rounds`; if they run out there is no result. -/
def walkBack (s : Search) : (rounds : Nat) → (current : DependencyNode) →
    (path : List DependencyNode) → Option (List DependencyNode)
  | 0, _, _ => none
  | rounds + 1, current, path =>
    match s.parent current with
    | none => some path
    | some previous => s.walkBack rounds previous (previous :: path)

/-- Looks at nodes until `goal` is met or none is queued. If the rounds run out, here or on the way
back, there is no result; a search that ends without a path has the result `none`. -/
def run (g : DependencyGraph) (goal : DependencyNode) (wayBack : Nat) :
    (rounds : Nat) → Search → Option (Option (List DependencyNode))
  | 0, _ => none
  | rounds + 1, s =>
    match s.queue with
    | [] => some none
    | n :: queue =>
      if n == goal then (s.walkBack wayBack goal [goal]).map some
      else run g goal wayBack rounds ((g.needs n).foldl (meet n) { s with queue })

end Search

/-- A search for a shortest path of dependencies from one table to another, by identifiers, with so many
rounds at most in each of its loops. -/
def findPath (g : DependencyGraph) (rounds : Nat) (a b : String) : Option (Option (List String)) :=
  match node? g.nodes .table a, node? g.nodes .table b with
  | some start, some goal =>
    (Search.run g goal rounds rounds (.start start)).map fun path =>
      path.map fun nodes => nodes.map (·.id)
  | _, _ => some none

/-- The path that the search finds. No node is queued twice, so it ends in time. -/
def path? (g : DependencyGraph) (a b : String) : Option (List String) :=
  (g.findPath (g.nodes.length + 1) a b).join

end DependencyGraph

namespace Project

/-- The path that a new relationship would close to a cycle, if there is one. -/
def closedCycle? (p : Project) (dependent source : String) : Option (List String) :=
  if dependent == source then none else (DependencyGraph.build p).path? source dependent

/-- Whether both ends of a relationship exist; a missing one is reported for the relationship. -/
def checkEndpoints (p : Project) (id : String) (source dependent : Location) :
    Except SchemaError Unit :=
  [("source", source), ("foreign key", dependent)].forM fun (label, location) =>
    match p.table? location.table with
    | none =>
      .error (.referentialIntegrity id (label ++ " table " ++ location.table ++ " does not exist"))
    | some t =>
      if (t.field? location.field).isNone then
        .error (.referentialIntegrity id
          (label ++ " field " ++ location.field ++ " does not exist in table '" ++ t.name ++ "'"))
      else .ok ()

end Project
end LakeSchema
