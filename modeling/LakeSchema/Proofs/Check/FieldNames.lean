import LakeSchema.Check.Table
import LakeSchema.Proofs.Check.Consistency
import Mathlib.Data.List.Pairwise

/-!
# Field names that a table has twice

A table is reported for a field name exactly if two of its fields have usable names that are one in
lower case (`repeatsName_iff`).
-/

namespace LakeSchema

theorem pairwise_iff_splits {α : Type} {R : α → α → Prop} {items : List α} :
    items.Pairwise R ↔ ∀ before x after, items = before ++ x :: after → ∀ y ∈ before, R y x := by
  constructor
  · rintro related before x after rfl y member
    exact (List.pairwise_append.mp related).2.2 y member x List.mem_cons_self
  · intro splits
    induction items with
    | nil => exact .nil
    | cons a rest ih =>
      refine List.pairwise_cons.mpr ⟨fun b member => ?_, ih fun before x after split y inside => ?_⟩
      · obtain ⟨early, late, rfl⟩ := List.append_of_mem member
        exact splits (a :: early) b late rfl a List.mem_cons_self
      · exact splits (a :: before) x after (by rw [split]; rfl) y (List.mem_cons_of_mem a inside)

/-- The report of a field whose name an earlier field of its table has. -/
def SchemaError.nameRepeated (field name table : String) : SchemaError :=
  .duplicateEntity field ("field name '" ++ name ++ "' appears twice in table '" ++ table ++ "'")

/-- Two usable names that are one in lower case. -/
def Name.Alike (a b : String) : Prop :=
  Name.fieldProblem? a = none ∧ Name.fieldProblem? b = none ∧ Text.lowered a = Text.lowered b

theorem Name.Alike.symm {a b : String} (alike : Name.Alike a b) : Name.Alike b a :=
  ⟨alike.2.1, alike.1, alike.2.2.symm⟩

namespace Table

variable {t : Table} {f : Field}

/-- The check of the table reports that it has a field name twice. -/
def RepeatsName (t : Table) : Prop :=
  ∃ f ∈ t.fields, .nameRepeated f.id f.name t.name ∈ t.problems

instance : Decidable t.RepeatsName :=
  inferInstanceAs (Decidable (∃ f ∈ t.fields, _ ∈ t.problems))

theorem nameTaken_iff {earlier : List Field} {name : String} :
    nameTaken earlier name ↔ ∃ g ∈ earlier, Name.fieldProblem? g.name = none ∧
      Text.lowered g.name = Text.lowered name := by
  simp [nameTaken]

/-- No other check reports what a repeated name is reported as. -/
theorem nameRepeated_mem_fieldProblems {earlier : List Field} {id name : String} :
    .nameRepeated id name t.name ∈ t.fieldProblems earlier f →
      Name.fieldProblem? f.name = none ∧ nameTaken earlier f.name := by
  intro reported
  rw [fieldProblems, List.mem_append, List.mem_append] at reported
  rcases reported with (ids | names) | parameters
  · split at ids
    · -- The two messages differ from their seventh letter on.
      have message := (SchemaError.duplicateEntity.inj (List.mem_singleton.mp ids)).2
      have letter := congrArg (fun s : String => s.toList[6]?) message
      simp at letter
    · contradiction
  · rw [fieldNameProblems] at names
    split at names
    · simp [SchemaError.nameRepeated] at names
    · split at names
      · exact ⟨‹_›, ‹_›⟩
      · contradiction
  · simp [SchemaError.nameRepeated] at parameters

theorem nameRepeated_mem_problems {id name : String} :
    .nameRepeated id name t.name ∈ t.problems ↔
      .nameRepeated id name t.name ∈ withEarlier t.fieldProblems t.fields := by
  rw [problems, List.mem_append, List.mem_append, List.mem_append]
  constructor
  · rintro (((table | comment) | empty) | field)
    · simp [nameErrors, SchemaError.nameRepeated] at table
    · simp [nameErrors, SchemaError.nameRepeated] at comment
    · split at empty <;> simp [SchemaError.nameRepeated] at empty
    · exact field
  · exact .inr

theorem repeatsName_iff :
    t.RepeatsName ↔ ¬ (t.fields.map (·.name)).Pairwise fun a b => ¬ Name.Alike a b := by
  rw [List.pairwise_map, pairwise_iff_splits]
  constructor
  · rintro ⟨f, _, reported⟩ apart
    rw [nameRepeated_mem_problems, mem_withEarlier_iff] at reported
    obtain ⟨before, g, after, split, reported⟩ := reported
    obtain ⟨usable, taken⟩ := nameRepeated_mem_fieldProblems reported
    obtain ⟨h, member, other, same⟩ := nameTaken_iff.mp taken
    exact apart before g after split h (List.mem_reverse.mp member) ⟨other, usable, same⟩
  · intro related
    push Not at related
    obtain ⟨before, f, after, split, g, member, other, usable, same⟩ := related
    have taken : nameTaken before.reverse f.name :=
      nameTaken_iff.mpr ⟨g, List.mem_reverse.mpr member, other, same⟩
    refine ⟨f, by simp [split], ?_⟩
    rw [nameRepeated_mem_problems, mem_withEarlier_iff]
    refine ⟨before, f, after, split, ?_⟩
    rw [fieldProblems, List.mem_append, List.mem_append, fieldNameProblems, usable, if_pos taken]
    exact .inl (.inr (List.mem_singleton_self _))

theorem repeatsName_of_alike {g : Field} (first : f ∈ t.fields) (second : g ∈ t.fields)
    (apart : f ≠ g) (alike : Name.Alike f.name g.name) : t.RepeatsName := by
  rw [repeatsName_iff, List.pairwise_map]
  intro related
  have symmetric : Std.Symm fun f g : Field => ¬ Name.Alike f.name g.name :=
    ⟨fun f g differ alike => differ alike.symm⟩
  exact related.forall first second apart alike

/-- Whether a table repeats a name depends on nothing but the names. -/
theorem repeatsName_congr {u : Table} (same : u.fields.map (·.name) = t.fields.map (·.name)) :
    u.RepeatsName ↔ t.RepeatsName := by
  rw [repeatsName_iff, repeatsName_iff, same]

end Table
end LakeSchema
