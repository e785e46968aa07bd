import Mathlib.Data.List.Forall2

/-!
# Results that may be errors

A chain of steps succeeds exactly when each step does.
-/

namespace LakeSchema

variable {ε α β : Type} {x : Except ε α} {a : α} {b : β}

@[simp]
theorem mapError_eq_ok_iff {ε' : Type} {wrap : ε → ε'} : x.mapError wrap = .ok a ↔ x = .ok a := by
  cases x <;> simp [Except.mapError]

theorem bind_eq_ok_iff {f : α → Except ε β} :
    x >>= f = .ok b ↔ ∃ a, x = .ok a ∧ f a = .ok b := by
  cases x with
  | error e => simp [bind, Except.bind]
  | ok a => simp [bind, Except.bind]

theorem bind_eq_error_iff {f : α → Except ε β} {e : ε} :
    x >>= f = .error e ↔ x = .error e ∨ ∃ a, x = .ok a ∧ f a = .error e := by
  cases x with
  | error e => simp [bind, Except.bind]
  | ok a => simp [bind, Except.bind]

/-- A check that ends a chain of steps early. -/
theorem guard_eq_ok_iff {c : Prop} [Decidable c] {e : ε} {f : α → Except ε β} {rest : Except ε β} :
    (if c then Except.error e >>= f else rest) = .ok b ↔ ¬ c ∧ rest = .ok b := by
  by_cases met : c <;> simp [met, bind, Except.bind]

/-- A step without a result of its own that is only taken on a condition. -/
theorem optional_eq_ok_iff {c : Prop} [Decidable c] {first : Except ε Unit} {rest : Except ε β} :
    (if c then first >>= fun _ => rest else rest) = .ok b ↔ (c → first = .ok ()) ∧ rest = .ok b := by
  by_cases taken : c
  · rw [if_pos taken, bind_eq_ok_iff]
    simp only [taken, true_implies]
    exact ⟨fun ⟨(), first, rest⟩ => ⟨first, rest⟩, fun ⟨first, rest⟩ => ⟨(), first, rest⟩⟩
  · simp [taken]

/-- An optional step that succeeds whenever it is taken changes nothing. -/
theorem optional_eq_of_ok {c : Prop} [Decidable c] {first : Except ε Unit} {rest : Except ε β}
    (passes : c → first = .ok ()) : (if c then first >>= fun _ => rest else rest) = rest := by
  split
  · rename_i taken
    rw [passes taken]
    rfl
  · rfl

theorem mapM_eq_ok_iff {f : α → Except ε β} {items : List α} {results : List β} :
    items.mapM f = .ok results ↔ List.Forall₂ (fun x b => f x = .ok b) items results := by
  induction items generalizing results with
  | nil => simp [pure, Except.pure, eq_comm]
  | cons x rest ih =>
    simp only [List.mapM_cons, bind_eq_ok_iff, ih, List.forall₂_cons_left_iff]
    simp [pure, Except.pure, eq_comm]

theorem exists_mapM_eq_ok {f : α → Except ε β} {items : List α}
    (each : ∀ x ∈ items, ∃ b, f x = .ok b) : ∃ results, items.mapM f = .ok results := by
  induction items with
  | nil => exact ⟨[], rfl⟩
  | cons x rest ih =>
    obtain ⟨b, first⟩ := each x List.mem_cons_self
    obtain ⟨bs, others⟩ := ih fun y member => each y (List.mem_cons_of_mem x member)
    exact ⟨b :: bs, mapM_eq_ok_iff.mpr (.cons first (mapM_eq_ok_iff.mp others))⟩

theorem forM_eq_ok_iff {f : α → Except ε Unit} {items : List α} :
    items.forM f = .ok () ↔ ∀ x ∈ items, f x = .ok () := by
  induction items with
  | nil => exact iff_of_true rfl nofun
  | cons x rest ih =>
    change (f x >>= fun _ => rest.forM f) = .ok () ↔ _
    rw [bind_eq_ok_iff, List.forall_mem_cons, ih]
    exact ⟨fun ⟨(), first, others⟩ => ⟨first, others⟩, fun ⟨first, others⟩ => ⟨(), first, others⟩⟩

end LakeSchema
