import LakeSchema.Proofs.Edit.CommutingDeletion

/-!
# What deleting a relationship does

Deleting a relationship fails in two ways (`deleteRelationship_eq_error_iff`). In a consistent
project it succeeds and removes the dependent field with all that points at it, makes it a plain
field, or leaves all fields as they are (`deleteRelationship_outcome`).
-/

namespace LakeSchema

/-- A table keeps all but its fields, which change as given. If it changes, the time is recorded. -/
structure Table.Refitted (change : Location → Field → Option Field) (now : Timestamp)
    (t u : Table) : Prop where
  fields : u.fields = t.fields.filterMap fun f => change ⟨t.id, f.id⟩ f
  attributes : u = t ∨ u = { t with fields := u.fields, updatedAt := now }

namespace Project

variable {p q : Project} {policy : OriginPolicy} {r : Relationship} {l : Location} {id : String}
  {now : Timestamp}

/-- Nothing changes but relationships and fields, and fields change as given. -/
structure Refitted (change : Location → Field → Option Field) (now : Timestamp)
    (p q : Project) : Prop where
  tables : List.Forall₂ (Table.Refitted change now) p.tables q.tables
  others : q = { p with tables := q.tables, relationships := q.relationships }

/-! ### Tables -/

theorem purgeField_refitted (keyed : p.Keyed) (l : Location) (now : Timestamp) :
    Refitted (Reconciliation.removed.effect l) now p (p.purgeField l now) := by
  refine ⟨?_, rfl⟩
  rw [purgeField, releaseField, updateTable, updateFirst_eq_map keyed.tables, List.map_map,
    List.forall₂_map_right_iff, List.forall₂_same]
  intro t _
  have fields := congrArg Table.fields (loosen_eq_refit l t)
  have detached := (Table.detachWhere_fieldwise (·.refersTo l) now).fields
  rw [Function.comp_apply]
  by_cases inside : t.id = l.table
  · simp only [if_pos inside] at fields ⊢
    refine ⟨(detached _).trans fields, .inr ?_⟩
    unfold Table.detachWhere
    split <;> rfl
  · simp only [if_neg inside] at fields ⊢
    refine ⟨(detached t).trans fields, ?_⟩
    unfold Table.detachWhere
    split
    · exact .inr rfl
    · exact .inl rfl

theorem detachField_refitted (keyed : p.Keyed) (l : Location) (now : Timestamp) :
    Refitted (Reconciliation.detached.effect l) now p (p.detachField l now) := by
  refine ⟨?_, rfl⟩
  rw [detachField, updateTable, updateFirst_eq_map keyed.tables, List.forall₂_map_right_iff,
    List.forall₂_same]
  intro t member
  have fields := congrArg Table.fields (detach_eq_refit l (keyed.fields t member))
  by_cases inside : t.id = l.table
  · rw [if_pos inside] at fields ⊢
    exact ⟨fields, .inr rfl⟩
  · rw [if_neg inside] at fields ⊢
    exact ⟨fields, .inl rfl⟩

/-! ### Outcomes -/

/-- The dependent field is gone, and nothing points at it any more. -/
structure FieldRemoved (p q : Project) (r : Relationship) (now : Timestamp) : Prop
    extends Refitted (Reconciliation.removed.effect r.dependent) now p q where
  gone : q.field? r.dependent = none
  untouched : ∀ s ∈ q.relationships, s.touchesField r.dependent = false
  released : ∀ l f, q.field? l = some f → f.refersTo r.dependent = false
  fields : ∀ l, l ≠ r.dependent → q.field? l = (p.field? l).map fun f =>
    if f.refersTo r.dependent then
      { f with isForeignKey := false, reference := none, origin := none }
    else f
  relationships : q.relationships =
    p.relationships.filter fun s => s.id != r.id && !s.touchesField r.dependent

/-- The dependent field stays as a plain field. -/
structure FieldDetached (p q : Project) (r : Relationship) (now : Timestamp) : Prop
    extends Refitted (Reconciliation.detached.effect r.dependent) now p q where
  plain : ∃ f, p.field? r.dependent = some f ∧
    q.field? r.dependent = some { f with isForeignKey := false, reference := none, origin := none }
  fields : ∀ l, l ≠ r.dependent → q.field? l = p.field? l
  relationships : q.relationships = p.relationships.filter (·.id != r.id)

/-- What is left of a project, by what becomes of the dependent field. -/
def Settled (p q : Project) (r : Relationship) (now : Timestamp) : Reconciliation → Prop
  | .removed => p.FieldRemoved q r now
  | .detached => p.FieldDetached q r now
  | .untouched => q = { p with relationships := p.relationships.filter (·.id != r.id) }
  | .missing | .skipped => False

theorem field?_detachWhen_refersTo {f : Field}
    (found : (p.field? l).map (Field.detachWhen (·.refersTo r.dependent)) = some f) :
    f.refersTo r.dependent = false := by
  obtain ⟨g, _, rfl⟩ := Option.map_eq_some_iff.mp found
  unfold Field.detachWhen
  split
  · rfl
  · rename_i elsewhere
    exact Bool.not_eq_true _ ▸ elsewhere

theorem cut_removed (keyed : p.Keyed) (removed : p.verdict policy r = .removed) (now : Timestamp) :
    p.FieldRemoved (p.cut policy r now) r now := by
  obtain ⟨tables, others⟩ := purgeField_refitted keyed r.dependent now
  have settled : (p.reconcile policy r now).2 = p.purgeField r.dependent now := by
    rw [reconcile, removed]
  have gone : (p.cut policy r now).field? r.dependent = none := by
    show (p.reconcile policy r now).2.field? r.dependent = none
    rw [settled, field?_purgeField, if_pos rfl]
  have fields : ∀ l, l ≠ r.dependent → (p.cut policy r now).field? l =
      (p.field? l).map (Field.detachWhen (·.refersTo r.dependent)) := by
    intro l apart
    rw [field?_cut apart, if_pos removed]
  have relationships : (p.cut policy r now).relationships =
      p.relationships.filter fun s => s.id != r.id && !s.touchesField r.dependent := by
    rw [cut_relationships]
    simp only [removed, decide_true, Bool.true_and]
  refine ⟨⟨?_, ?_⟩, gone, ?_, ?_, fields, relationships⟩
  · rw [cut, settled]
    exact tables
  · rw [cut, settled]
    rfl
  · intro s member
    rw [relationships, List.mem_filter, Bool.and_eq_true] at member
    simpa using member.2.2
  · intro l f found
    by_cases here : l = r.dependent
    · rw [here, gone] at found
      contradiction
    · rw [fields l here] at found
      exact field?_detachWhen_refersTo found

theorem cut_detached (keyed : p.Keyed) (detached : p.verdict policy r = .detached)
    (now : Timestamp) : p.FieldDetached (p.cut policy r now) r now := by
  obtain ⟨tables, others⟩ := detachField_refitted keyed r.dependent now
  have settled : (p.reconcile policy r now).2 = p.detachField r.dependent now := by
    rw [reconcile, detached]
  have kept : p.verdict policy r ≠ .removed := by simp [detached]
  have present : p.field? r.dependent ≠ none := by
    intro absent
    have missing : p.verdict policy r = .missing := verdict_eq_missing_iff.mpr absent
    rw [detached] at missing
    contradiction
  obtain ⟨f, found⟩ := Option.ne_none_iff_exists'.mp present
  refine ⟨⟨?_, ?_⟩, ⟨f, found, ?_⟩, ?_, ?_⟩
  · rw [cut, settled]
    exact tables
  · rw [cut, settled]
    rfl
  · show (p.reconcile policy r now).2.field? r.dependent = some f.detach
    rw [settled, field?_detachField, if_pos rfl, found, Option.map_some]
  · intro l apart
    rw [field?_cut apart, if_neg kept]
  · simp [cut_relationships, kept]

theorem cut_untouched (untouched : p.verdict policy r = .untouched) (now : Timestamp) :
    p.cut policy r now = { p with relationships := p.relationships.filter (·.id != r.id) } := by
  rw [cut, reconcile, untouched]

theorem verdict_ne_skipped : p.verdict policy r ≠ .skipped := by
  unfold verdict
  repeat' split
  all_goals simp

theorem cut_settled (keyed : p.Keyed) (present : (p.field? r.dependent).isSome)
    (policy : OriginPolicy) (now : Timestamp) :
    p.Settled (p.cut policy r now) r now (p.verdict policy r) := by
  cases verdict : p.verdict policy r with
  | removed => exact cut_removed keyed verdict now
  | detached => exact cut_detached keyed verdict now
  | untouched => exact cut_untouched verdict now
  | missing =>
    rw [verdict_eq_missing_iff] at verdict
    simp [verdict] at present
  | skipped => exact (verdict_ne_skipped verdict).elim

/-! ### The deletion -/

/-- The project after an edit, which is the one before if the edit fails. -/
def after {α : Type} (p : Project) (edited : Except SchemaError (α × Project)) : Project :=
  match edited with
  | .ok (_, q) => q
  | .error _ => p

/-- A relationship without its dependent field settles nothing. -/
theorem reconcile_missing (absent : p.field? r.dependent = none) (policy : OriginPolicy)
    (now : Timestamp) : p.reconcile policy r now = (.missing, p) := by
  have missing : p.verdict policy r = .missing := verdict_eq_missing_iff.mpr absent
  rw [reconcile, missing]

theorem deleteRelationship_eq_error_iff {e : SchemaError} :
    p.deleteRelationship policy id now = .error e ↔
      (p.relationship? id = none ∧ e = .notFound .relationship id) ∨
        ∃ r, p.relationship? id = some r ∧ p.field? r.dependent = none ∧
          e = .referentialIntegrity r.id ("dependent field " ++ r.dependent.table ++ "." ++
            r.dependent.field ++ " does not exist") := by
  cases found : p.relationship? id with
  | none =>
    simp [deleteRelationship, found, eq_comm]
  | some r =>
    cases present : p.field? r.dependent with
    | none =>
      simp [deleteRelationship, found, reconcile_missing present, present, eq_comm]
    | some f =>
      rw [deleteRelationship_eq found (by rw [present]; rfl)]
      simp [present]

/-- Deleting a relationship fails if it does not exist or its dependent field does not, and then
changes nothing on the way. Without inconsistencies it succeeds and settles the dependent field. -/
theorem deleteRelationship_outcome (p : Project) (policy : OriginPolicy) (id : String)
    (now : Timestamp) :
    (∀ e, p.deleteRelationship policy id now = .error e ↔
      ((∀ r ∈ p.relationships, r.id ≠ id) ∧ e = .notFound .relationship id) ∨
        ∃ r, p.relationship? id = some r ∧ p.field? r.dependent = none ∧
          e = .referentialIntegrity r.id ("dependent field " ++ r.dependent.table ++ "." ++
            r.dependent.field ++ " does not exist")) ∧
    (∀ e, p.deleteRelationship policy id now = .error e →
      p.after (p.deleteRelationship policy id now) = p ∧
        ∀ r, p.relationship? id = some r → p.reconcile policy r now = (.missing, p)) ∧
    (p.inconsistencies = [] → ∀ r ∈ p.relationships, r.id = id →
      ∃ outcome q, p.deleteRelationship policy id now = .ok ((r, outcome), q) ∧
        p.Settled q r now outcome) := by
  refine ⟨fun e => ?_, fun e failed => ?_, fun consistent r member same => ?_⟩
  · rw [deleteRelationship_eq_error_iff, relationship?_eq_none_iff]
  · refine ⟨by rw [failed, after], fun r found => ?_⟩
    rcases deleteRelationship_eq_error_iff.mp failed with ⟨unknown, _⟩ | ⟨_, found', absent, _⟩
    · rw [found] at unknown
      contradiction
    · obtain rfl := Option.some_inj.mp (found.symm.trans found')
      exact reconcile_missing absent policy now
  · have sound := inconsistencies_eq_nil_iff.mp consistent
    have found := (relationship?_eq_some_iff sound).mpr ⟨member, same⟩
    have present := (sound.endpoint member).2.2
    exact ⟨_, _, deleteRelationship_eq found present, cut_settled sound.toKeyed present policy now⟩

/-- The key of stores goes with its relationship, and so does the one between sales and stores. -/
theorem keyChain_deletion :
    keyChain.inconsistencies = [] ∧ ∃ r ∈ keyChain.relationships, ∃ q,
      keyChain.deleteRelationship .explicit "RS" newYear = .ok ((r, .removed), q) ∧
        keyChain.FieldRemoved q r newYear ∧ q.relationships = [] := by
  have consistent : keyChain.inconsistencies = [] := by decide
  obtain ⟨_, _, settles⟩ := deleteRelationship_outcome keyChain .explicit "RS" newYear
  obtain ⟨outcome, q, deleted, settled⟩ := settles consistent _ (.head _) rfl
  have removed : outcome = .removed := by
    have answer := congrArg (Except.map fun found => found.1.2) deleted
    exact (Except.ok.inj answer).symm
  subst removed
  refine ⟨consistent, _, .head _, q, deleted, settled, ?_⟩
  rw [settled.relationships]
  rfl

end Project

end LakeSchema
