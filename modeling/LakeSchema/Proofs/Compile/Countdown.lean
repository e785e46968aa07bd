import LakeSchema.Proofs.Compile.Order

/-!
# Counting down dependencies

The counters of a `Countdown` tell how many dependencies of a node are not placed, and its queue holds
the nodes that are ready, by their places (`Counts`). So it places the nodes that the rule of the
creation order asks for (`order?_eq`), and no counter falls below zero, not even while a node is
counted off (`Counting.tell`).
-/

namespace LakeSchema.DependencyGraph

variable {g : DependencyGraph} {n m k : DependencyNode} {placed todo : List DependencyNode}
  {c : Countdown}

/-- The dependencies of a node that are not placed. -/
def missing (g : DependencyGraph) (placed : List DependencyNode) (n : DependencyNode) :
    List DependencyNode :=
  (g.needs n).filter fun m => !placed.contains m

theorem missing_eq_nil_iff : g.missing placed n = [] ↔ ∀ m, g.DependsOn n m → m ∈ placed := by
  simp [missing, List.filter_eq_nil_iff, mem_needs]

/-- Placing a node takes it from what its dependents miss. -/
theorem length_missing_concat (wellFormed : g.WellFormed) (fresh : m ∉ placed) :
    (g.missing placed n).length =
      (g.missing (placed ++ [m]) n).length + if n ∈ g.dependents m then 1 else 0 := by
  have fewer : g.missing (placed ++ [m]) n = (g.missing placed n).filter fun k => k != m := by
    rw [missing, missing, List.filter_filter]
    refine List.filter_congr fun k _ => ?_
    by_cases same : k = m <;> simp [same]
  have once : (g.missing placed n).Nodup := (needs_nodup wellFormed n).filter _
  have member : m ∈ g.missing placed n ↔ n ∈ g.dependents m := by
    simp [missing, mem_needs, mem_dependents, fresh]
  rw [fewer, ← once.erase_eq_filter]
  split
  · rename_i dependent
    have inside := member.mpr dependent
    have positive := List.length_pos_of_mem inside
    rw [List.length_erase_of_mem inside]
    omega
  · rename_i independent
    rw [List.erase_of_not_mem (mt member.mp independent), Nat.add_zero]

theorem missing_eq_nil_concat (wellFormed : g.WellFormed) (fresh : m ∉ placed) :
    g.missing placed n = [] ↔ g.missing (placed ++ [m]) n = [] ∧ n ∉ g.dependents m := by
  rw [← List.length_eq_zero_iff, ← List.length_eq_zero_iff, length_missing_concat wellFormed fresh]
  split <;> simp_all

namespace Countdown

/-! ### The queue -/

theorem enqueue_perm (n : DependencyNode) (ready : List DependencyNode) :
    (enqueue n ready).Perm (n :: ready) := by
  induction ready with
  | nil => exact .refl _
  | cons m rest ih =>
    rw [enqueue]
    split
    · exact .refl _
    · exact (ih.cons m).trans (.swap n m rest)

theorem enqueue_ascending {ready : List DependencyNode}
    (ascending : ready.Pairwise fun a b => a.order < b.order)
    (apart : ∀ m ∈ ready, m.order ≠ n.order) :
    (enqueue n ready).Pairwise fun a b => a.order < b.order := by
  induction ready with
  | nil => exact List.pairwise_singleton _ _
  | cons m rest ih =>
    obtain ⟨least, ordered⟩ := List.pairwise_cons.mp ascending
    rw [enqueue]
    split
    · rename_i before
      refine .cons (fun k later => ?_) ascending
      rcases List.mem_cons.mp later with rfl | later
      · exact before
      · exact Nat.lt_trans before (least k later)
    · rename_i behind
      refine .cons (fun k later => ?_) (ih ordered fun k later => apart k (List.mem_cons_of_mem m later))
      rcases List.mem_cons.mp ((enqueue_perm n rest).mem_iff.mp later) with rfl | later
      · have differ := apart m List.mem_cons_self
        omega
      · exact least k later

/-! ### Counting off a node -/

/-- While a node is counted off, after it has been placed, its dependents in `todo` count it still. -/
structure Counting (g : DependencyGraph) (todo : List DependencyNode) (c : Countdown) : Prop where
  remaining : ∀ n, c.remaining n = ((g.missing c.placed n).length + if n ∈ todo then 1 else 0 : Nat)
  ascending : c.ready.Pairwise fun n m => n.order < m.order
  ready : ∀ n, n ∈ c.ready ↔ n ∈ g.nodes ∧ n ∉ c.placed ∧ g.missing c.placed n = [] ∧ n ∉ todo

theorem order_inj (wellFormed : g.WellFormed) (left : n ∈ g.nodes) (right : m ∈ g.nodes)
    (same : n.order = m.order) : n = m := by
  have distinct : (g.nodes.map (·.order)).Nodup :=
    List.pairwise_map.mpr (wellFormed.ascending.imp fun before => Nat.ne_of_lt before)
  exact List.inj_on_of_nodup_map distinct left right same

theorem Counting.release (counting : Counting g (n :: todo) c) (wellFormed : g.WellFormed)
    (inside : n ∈ g.nodes) (unplaced : n ∉ c.placed) (once : n ∉ todo) :
    Counting g todo (c.release n) := by
  have left : c.remaining n - 1 = (g.missing c.placed n).length := by
    have count := counting.remaining n
    rw [if_pos List.mem_cons_self] at count
    omega
  have queued : n ∉ c.ready := fun waiting => ((counting.ready n).mp waiting).2.2.2 List.mem_cons_self
  refine ⟨fun k => ?_, ?_, fun k => ?_⟩
  · show (if k == n then c.remaining n - 1 else c.remaining k) = _
    by_cases same : k = n
    · subst same
      rw [if_pos (beq_self_eq_true k), left, if_neg once, Nat.add_zero]
      rfl
    · rw [if_neg (by simpa using same), counting.remaining k]
      simp [Countdown.release, same]
  · show (if c.remaining n - 1 == 0 then enqueue n c.ready else c.ready).Pairwise _
    split
    · refine enqueue_ascending counting.ascending fun m waiting same => queued ?_
      have known := ((counting.ready m).mp waiting).1
      rwa [← order_inj wellFormed known inside same]
    · exact counting.ascending
  · show k ∈ (if c.remaining n - 1 == 0 then enqueue n c.ready else c.ready) ↔
      k ∈ g.nodes ∧ k ∉ c.placed ∧ g.missing c.placed k = [] ∧ k ∉ todo
    rw [left]
    by_cases same : k = n
    · subst same
      split
      · rename_i done
        have none : g.missing c.placed k = [] := by simpa using done
        simp [(enqueue_perm k c.ready).mem_iff, inside, unplaced, none, once]
      · rename_i more
        have some : g.missing c.placed k ≠ [] := by simpa using more
        simp [queued, some]
    · have kept : k ∈ (if ((g.missing c.placed n).length : Int) == 0 then enqueue n c.ready
          else c.ready) ↔ k ∈ c.ready := by
        split
        · simp [(enqueue_perm n c.ready).mem_iff, same]
        · rfl
      rw [kept, counting.ready k]
      simp [same]

/-- Counting off dependents leaves those that are still to be told. -/
theorem Counting.foldl_release {told : List DependencyNode} (counting : Counting g (told ++ todo) c)
    (wellFormed : g.WellFormed) (inside : ∀ n ∈ told, n ∈ g.nodes) (unplaced : ∀ n ∈ told, n ∉ c.placed)
    (once : (told ++ todo).Nodup) : Counting g todo (told.foldl Countdown.release c) := by
  induction told generalizing c with
  | nil => exact counting
  | cons n rest ih =>
    obtain ⟨fresh, once⟩ := List.nodup_cons.mp once
    have next : Counting g (rest ++ todo) (c.release n) :=
      Counting.release counting wellFormed (inside n List.mem_cons_self)
        (unplaced n List.mem_cons_self) fresh
    exact ih next (fun m later => inside m (List.mem_cons_of_mem n later))
      (fun m later => unplaced m (List.mem_cons_of_mem n later)) once

theorem foldl_release_placed (told : List DependencyNode) (c : Countdown) :
    (told.foldl Countdown.release c).placed = c.placed := by
  induction told generalizing c with
  | nil => rfl
  | cons n rest ih => exact ih (c.release n)

/-! ### Rounds -/

/-- Between two rounds every counter tells how many dependencies are missing, and the nodes that
miss none wait in the queue. -/
abbrev Counts (g : DependencyGraph) (c : Countdown) : Prop :=
  Counting g [] c

theorem counts_start (wellFormed : g.WellFormed) : Counts g (start g) where
  remaining n := by simp [start, missing]
  ascending := wellFormed.ascending.filter _
  ready n := by simp [start, missing]

theorem nodup_of_ascending {nodes : List DependencyNode}
    (ascending : nodes.Pairwise fun n m => n.order < m.order) : nodes.Nodup := by
  refine List.Pairwise.imp (fun {n m} before => ?_) ascending
  rintro rfl
  exact Nat.lt_irrefl _ before

/-- The queue holds the ready nodes in project order. -/
theorem Counting.ready_eq (counts : Counts g c) (wellFormed : g.WellFormed) :
    c.ready = g.nodes.filter fun n => !c.placed.contains n && (g.needs n).all c.placed.contains := by
  have same : c.ready.Perm
      (g.nodes.filter fun n => !c.placed.contains n && (g.needs n).all c.placed.contains) := by
    refine (List.perm_ext_iff_of_nodup (nodup_of_ascending counts.ascending)
      (wellFormed.distinct.filter _)).mpr fun n => ?_
    rw [counts.ready, missing_eq_nil_iff]
    simp [mem_needs]
  exact same.eq_of_pairwise (fun n m _ _ before behind => absurd before (Nat.lt_asymm behind))
    counts.ascending (wellFormed.ascending.filter _)

theorem Counting.head?_ready (counts : Counts g c) (wellFormed : g.WellFormed) :
    c.ready.head? = g.nextReady? c.placed := by
  rw [counts.ready_eq wellFormed, List.head?_filter, nextReady?]

/-- Placing the first ready node leaves its dependents to be told. -/
theorem Counting.place? (counts : Counts g c) (wellFormed : g.WellFormed) {next : Countdown}
    (found : c.place? = some (n, next)) :
    next.placed = c.placed ++ [n] ∧ g.nextReady? c.placed = some n ∧
      Counting g (g.dependents n) next := by
  have queue := counts.head?_ready wellFormed
  unfold Countdown.place? at found
  split at found
  · contradiction
  · rename_i first ready waiting
    obtain ⟨rfl, rfl⟩ := Prod.mk.inj (Option.some.inj found)
    rw [waiting, List.head?_cons] at queue
    obtain ⟨inside, fresh, _⟩ := nextReady?_eq_some queue.symm
    have ordered := counts.ascending
    rw [waiting] at ordered
    have apart := (List.nodup_cons.mp (nodup_of_ascending ordered)).1
    refine ⟨rfl, queue.symm, ⟨fun k => ?_, (List.pairwise_cons.mp ordered).2, fun k => ?_⟩⟩
    · have count := counts.remaining k
      rwa [length_missing_concat wellFormed fresh, if_neg List.not_mem_nil, Nat.add_zero] at count
    · have known := counts.ready k
      rw [waiting, missing_eq_nil_concat wellFormed fresh] at known
      by_cases same : k = first
      · subst same
        simp [apart]
      · simpa [same, and_assoc] using known

/-- The dependents of a placed node are told one by one; those told before count it no longer. -/
theorem Counting.tell (counts : Counts g c) (wellFormed : g.WellFormed) (placement : g.Placed c.placed)
    {next : Countdown} (found : c.place? = some (n, next)) {told : List DependencyNode}
    (split : told ++ todo = g.dependents n) :
    Counting g todo (told.foldl Countdown.release next) := by
  obtain ⟨placed, first, counting⟩ := counts.place? wellFormed found
  obtain ⟨_, fresh, ready⟩ := nextReady?_eq_some first
  have dependent : ∀ m ∈ told, g.DependsOn m n := fun m member =>
    mem_dependents.mp (split ▸ List.mem_append_left todo member)
  rw [← split] at counting
  refine counting.foldl_release wellFormed (fun m member => wellFormed.dependent (dependent m member))
    (fun m member => ?_) (split ▸ dependents_nodup wellFormed n)
  -- A dependent that is placed would have been placed after this node.
  rw [placed]
  intro already
  rcases List.mem_append.mp already with old | new
  · exact fresh (placement.closed old (dependent m member))
  · exact wellFormed.irrefl (List.mem_singleton.mp new ▸ dependent m member)

/-- The state of a countdown between two rounds. -/
structure Steady (g : DependencyGraph) (c : Countdown) : Prop where
  counts : Counts g c
  placement : g.Placed c.placed

theorem steady_start (wellFormed : g.WellFormed) : Steady g (start g) :=
  ⟨counts_start wellFormed, placed_nil⟩

/-- A round places the node that is next by the rule of the order. -/
theorem Steady.next? (steady : Steady g c) (wellFormed : g.WellFormed) :
    (c.next? g = none ∧ g.nextReady? c.placed = none) ∨ ∃ n next, c.next? g = some next ∧
      g.nextReady? c.placed = some n ∧ next.placed = c.placed ++ [n] ∧ Steady g next := by
  cases found : c.place? with
  | none =>
    have queue := steady.counts.head?_ready wellFormed
    unfold Countdown.place? at found
    split at found
    · rename_i empty
      rw [empty] at queue
      exact .inl ⟨by simp [Countdown.next?, Countdown.place?, empty], queue.symm⟩
    · contradiction
  | some taken =>
    obtain ⟨n, next⟩ := taken
    obtain ⟨placed, first, _⟩ := steady.counts.place? wellFormed found
    have all : ((g.dependents n).foldl Countdown.release next).placed = c.placed ++ [n] :=
      (foldl_release_placed _ _).trans placed
    obtain ⟨inside, fresh, ready⟩ := nextReady?_eq_some first
    refine .inr ⟨n, _, by rw [Countdown.next?, found]; rfl, first, all, ?_, ?_⟩
    · exact steady.counts.tell wellFormed steady.placement found (List.append_nil _)
    · exact all ▸ steady.placement.concat inside fresh ready

/-- A countdown places the nodes that the rule of the order does. -/
theorem Steady.run (steady : Steady g c) (wellFormed : g.WellFormed) (rounds : Nat) :
    Steady g (c.run g rounds) ∧ (c.run g rounds).placed = g.place c.placed rounds := by
  induction rounds generalizing c with
  | zero => exact ⟨steady, rfl⟩
  | succ rounds ih =>
    rw [Countdown.run, DependencyGraph.place]
    rcases steady.next? wellFormed with ⟨stuck, none⟩ | ⟨n, next, found, first, placed, steady⟩
    · rw [stuck, none]
      exact ⟨steady, rfl⟩
    · simp only [found, first, ← placed]
      exact ih steady

end Countdown

theorem order?_eq (wellFormed : g.WellFormed) :
    g.order? = if (g.place [] g.nodes.length).length < g.nodes.length then .error g.cycleErrors
      else .ok (g.place [] g.nodes.length) := by
  obtain ⟨_, placed⟩ := (Countdown.steady_start wellFormed).run wellFormed g.nodes.length
  rw [order?, placed]
  rfl

/-- A graph without cycles has a creation order, in which every node stands once and after all that
it depends on. -/
theorem order?_of_acyclic (wellFormed : g.WellFormed) (acyclic : g.Acyclic) :
    ∃ order, g.order? = .ok order ∧ order.Perm g.nodes ∧ g.Placed order := by
  have placement : g.Placed (g.place [] g.nodes.length) := placed_nil.place _
  have all : g.nodes.length ≤ (g.place [] g.nodes.length).length :=
    length_place wellFormed acyclic (Nat.le_add_left _ _)
  refine ⟨g.place [] g.nodes.length, ?_, ?_, placement⟩
  · rw [order?_eq wellFormed, if_neg (Nat.not_lt.mpr all)]
  · exact (List.subperm_of_subset placement.nodup placement.nodes).perm_of_length_le all

end LakeSchema.DependencyGraph
