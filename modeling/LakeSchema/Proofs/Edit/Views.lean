import LakeSchema.Edit.ViewEdit
import LakeSchema.Proofs.Except
import LakeSchema.Proofs.Schema.Lookup

/-!
# What edits of views do

One lemma for each edit of views and of the links to them: what was checked, and what becomes of the
project if the edit succeeds.
-/

namespace LakeSchema

theorem Name.accept_eq_ok_iff {entity : String} {problem : Option NameError} {u : Unit} :
    Name.accept entity problem = .ok u ↔ problem = none := by
  cases problem <;> simp [accept]

namespace Project

variable {p q : Project} {now : Timestamp} {id name table view : String}

theorem requireMetricView_eq_ok_iff {v : MetricView} :
    p.requireMetricView id = .ok v ↔ p.metricView? id = some v := by
  unfold requireMetricView
  split <;> simp [*]

theorem requireTraditionalView_eq_ok_iff {v : TraditionalView} :
    p.requireTraditionalView id = .ok v ↔ p.traditionalView? id = some v := by
  unfold requireTraditionalView
  split <;> simp [*]

theorem checkNewView_eq_ok_iff {u : Unit} :
    p.checkNewView id name = .ok u ↔ Name.tableProblem? name = none ∧
      p.metricView? id = none ∧ p.traditionalView? id = none := by
  simp only [checkNewView, bind_eq_ok_iff, Name.accept_eq_ok_iff, exists_const, metricView?,
    traditionalView?]
  refine and_congr_right fun _ => ?_
  split
  · rename_i taken
    simp only [reduceCtorEq, false_iff, not_and, List.find?_eq_none, beq_iff_eq]
    intro metric traditional
    simp only [Bool.or_eq_true, List.any_eq_true, beq_iff_eq] at taken
    rcases taken with ⟨v, member, same⟩ | ⟨v, member, same⟩
    · exact metric v member same
    · exact traditional v member same
  · rename_i new
    simpa [pure, Except.pure, List.find?_eq_none, List.any_eq_true] using new

section Metric

variable {v answer : MetricView}

theorem addMetricView_effect (done : p.addMetricView v now = .ok (answer, q)) :
    Name.tableProblem? v.name = none ∧ p.metricView? v.id = none ∧
      answer = { v with createdAt := now, updatedAt := now } ∧
      q = { p with metricViews := p.metricViews ++ [answer] } := by
  simp only [addMetricView, bind_eq_ok_iff] at done
  obtain ⟨_, new, _, _, done⟩ := done
  obtain ⟨named, absent, _⟩ := checkNewView_eq_ok_iff.mp new
  obtain ⟨rfl, rfl⟩ := Prod.mk.inj (Except.ok.inj done)
  exact ⟨named, absent, rfl, rfl⟩

theorem updateMetricView_effect {patch : MetricViewPatch}
    (done : p.updateMetricView id patch now = .ok (answer, q)) :
    ∃ v, p.metricView? id = some v ∧
      (patch.name.isSet → Name.tableProblem? (patch.name.on v.name) = none) ∧
      answer = { patch.apply v with updatedAt := now } ∧
      q = { p with metricViews := updateFirst (·.id == id) (fun _ => answer) p.metricViews } := by
  simp only [updateMetricView, bind_eq_ok_iff, requireMetricView_eq_ok_iff] at done
  obtain ⟨v, found, done⟩ := done
  obtain ⟨named, done⟩ := optional_eq_ok_iff.mp done
  obtain ⟨_, _, done⟩ := bind_eq_ok_iff.mp done
  obtain ⟨rfl, rfl⟩ := Prod.mk.inj (Except.ok.inj done)
  exact ⟨v, found, fun given => Name.accept_eq_ok_iff.mp (named given), rfl, rfl⟩

theorem deleteMetricView_effect (done : p.deleteMetricView id = .ok (answer, q)) :
    q = { p with
      metricViews := p.metricViews.eraseP (·.id == id)
      metricRelationships := p.metricRelationships.filter (·.metricView != id) } := by
  obtain ⟨_, _, done⟩ := bind_eq_ok_iff.mp done
  exact (Prod.mk.inj (Except.ok.inj done)).2.symm

end Metric

section Traditional

variable {v answer : TraditionalView}

/-- Finding the tables of its query leaves a view what it is called and when it changed. -/
theorem withQueryTables_keeps (p : Project) (c : Prop) [Decidable c] (v : TraditionalView) :
    (if c then p.withQueryTables v else v).id = v.id ∧
      (if c then p.withQueryTables v else v).name = v.name ∧
      (if c then p.withQueryTables v else v).updatedAt = v.updatedAt := by
  by_cases found : c <;> simp [found, withQueryTables]

theorem addTraditionalView_effect (done : p.addTraditionalView v now = .ok (answer, q)) :
    Name.tableProblem? v.name = none ∧ p.traditionalView? v.id = none ∧
      answer.id = v.id ∧ answer.name = v.name ∧ answer.updatedAt = now ∧
      q = { p with traditionalViews := p.traditionalViews ++ [answer] } := by
  simp only [addTraditionalView, bind_eq_ok_iff] at done
  obtain ⟨_, new, done⟩ := done
  obtain ⟨named, _, absent⟩ := checkNewView_eq_ok_iff.mp new
  obtain ⟨same, name, _⟩ := p.withQueryTables_keeps (v.referencedTables.isEmpty = true) v
  obtain ⟨rfl, rfl⟩ := Prod.mk.inj (Except.ok.inj done)
  exact ⟨named, absent, same, name, rfl, rfl⟩

theorem updateTraditionalView_effect {patch : TraditionalViewPatch}
    (done : p.updateTraditionalView id patch now = .ok (answer, q)) :
    ∃ v, p.traditionalView? id = some v ∧
      (patch.name.isSet → Name.tableProblem? (patch.name.on v.name) = none) ∧
      answer.id = v.id ∧ answer.name = patch.name.on v.name ∧ answer.updatedAt = now ∧
      q = { p with
        traditionalViews := updateFirst (·.id == id) (fun _ => answer) p.traditionalViews } := by
  simp only [updateTraditionalView, bind_eq_ok_iff, requireTraditionalView_eq_ok_iff] at done
  obtain ⟨v, found, done⟩ := done
  obtain ⟨named, done⟩ := optional_eq_ok_iff.mp done
  obtain ⟨same, name, time⟩ := p.withQueryTables_keeps
    ((patch.query.isSet && !patch.referencedTables.isSet) = true)
    { patch.apply v with updatedAt := now }
  obtain ⟨rfl, rfl⟩ := Prod.mk.inj (Except.ok.inj done)
  exact ⟨v, found, fun given => Name.accept_eq_ok_iff.mp (named given), same, name, time, rfl⟩

theorem deleteTraditionalView_effect (done : p.deleteTraditionalView id = .ok (answer, q)) :
    q = { p with traditionalViews := p.traditionalViews.eraseP (·.id == id) } := by
  obtain ⟨_, _, done⟩ := bind_eq_ok_iff.mp done
  exact (Prod.mk.inj (Except.ok.inj done)).2.symm

end Traditional

section Links

variable {answer : MetricRelationship}

theorem addMetricRelationship_effect
    (done : p.addMetricRelationship id table view now = .ok (answer, q)) :
    answer = .between id table view now ∧
      q = { p with metricRelationships := p.metricRelationships ++ [answer] } := by
  obtain ⟨_, _, done⟩ := bind_eq_ok_iff.mp done
  obtain ⟨_, _, done⟩ := bind_eq_ok_iff.mp done
  split at done
  · contradiction
  · obtain ⟨rfl, rfl⟩ := Prod.mk.inj (Except.ok.inj done)
    exact ⟨rfl, rfl⟩

theorem deleteMetricRelationship_effect (done : p.deleteMetricRelationship id = .ok (answer, q)) :
    q = { p with metricRelationships := p.metricRelationships.eraseP (·.id == id) } := by
  unfold deleteMetricRelationship at done
  split at done
  · contradiction
  · exact (Prod.mk.inj (Except.ok.inj done)).2.symm

end Links
end Project
end LakeSchema
