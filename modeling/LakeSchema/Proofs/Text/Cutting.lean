import LakeSchema.Text.Words
import Mathlib.Data.List.TakeWhile

/-!
# Cutting texts

What a text begins with, what stands between two texts, and where a text is cut.
-/

namespace LakeSchema.Text

variable {c mark : Char} {cs lead front rest inner left right : List Char}

/-- A class that holds no character of a text, in a form that can be evaluated. -/
theorem forall_of_all {p : Char → Bool} (all : cs.all (!p ·) = true) : ∀ c ∈ cs, p c = false := by
  simpa using all

/-! ### Beginnings and ends -/

theorem after?_append (lead words rest : List Char) :
    after? (lead ++ words) (lead ++ rest) = after? words rest := by
  induction lead with
  | nil => rfl
  | cons c lead ih => simp [after?, ih]

theorem after?_self (lead rest : List Char) : after? lead (lead ++ rest) = some rest := by
  have same := after?_append lead [] rest
  rwa [List.append_nil] at same

theorem after?_eq_some_iff : after? lead cs = some rest ↔ cs = lead ++ rest := by
  refine ⟨fun after => ?_, fun same => same ▸ after?_self lead rest⟩
  induction lead generalizing cs with
  | nil => exact Option.some.inj after
  | cons l lead ih =>
    cases cs with
    | nil => contradiction
    | cons c cs =>
      rw [after?] at after
      split at after
      · rename_i same
        rw [List.cons_append, ← ih after, beq_iff_eq.mp same]
      · contradiction

/-- A character that the beginning does not hold ends what can be compared with it. -/
theorem after?_append_mark (free : mark ∉ lead) (cs rest : List Char) :
    after? lead (cs ++ mark :: rest) = (after? lead cs).map (· ++ mark :: rest) := by
  induction lead generalizing cs with
  | nil => rfl
  | cons l lead ih =>
    obtain ⟨other, free⟩ := List.ne_and_not_mem_of_not_mem_cons free
    cases cs with
    | nil => simp [after?, Ne.symm other]
    | cons c cs =>
      rw [List.cons_append, after?, after?, ih free]
      split <;> rfl

theorem between?_eq_some_iff {opening closing : List Char} :
    between? opening closing cs = some inner ↔ cs = opening ++ inner ++ closing := by
  simp only [between?, before?, Option.bind_eq_some_iff, Option.map_eq_some_iff,
    after?_eq_some_iff, List.append_assoc]
  constructor
  · rintro ⟨rest, rfl, tail, reversed, rfl⟩
    rw [← List.reverse_reverse rest, reversed, List.reverse_append, List.reverse_reverse]
  · rintro rfl
    exact ⟨_, rfl, inner.reverse, by simp, by simp⟩

/-! ### Cuts -/

theorem cutAt?_append (free : mark ∉ front) :
    cutAt? mark (front ++ mark :: rest) = some (front, rest) := by
  induction front with
  | nil => simp [cutAt?]
  | cons c front ih =>
    obtain ⟨other, free⟩ := List.ne_and_not_mem_of_not_mem_cons free
    rw [List.cons_append, cutAt?, if_neg (by simpa using Ne.symm other), ih free]
    rfl

theorem cutAt?_eq_some_iff :
    cutAt? mark cs = some (left, right) ↔ cs = left ++ mark :: right ∧ mark ∉ left := by
  refine ⟨fun cut => ?_, fun ⟨same, free⟩ => same ▸ cutAt?_append free⟩
  induction cs generalizing left with
  | nil => contradiction
  | cons c cs ih =>
    rw [cutAt?] at cut
    split at cut
    · rename_i here
      cases cut
      exact ⟨by rw [beq_iff_eq.mp here]; rfl, List.not_mem_nil⟩
    · rename_i other
      obtain ⟨⟨front, back⟩, later, same⟩ := Option.map_eq_some_iff.mp cut
      cases same
      obtain ⟨rfl, free⟩ := ih later
      exact ⟨rfl, List.not_mem_cons_of_ne_of_not_mem (Ne.symm (by simpa using other)) free⟩

theorem cutAt?_eq_none_iff : cutAt? mark cs = none ↔ mark ∉ cs := by
  induction cs with
  | nil => exact iff_of_true rfl List.not_mem_nil
  | cons c cs ih =>
    rw [cutAt?, List.mem_cons, not_or, ← ih]
    by_cases here : c = mark
    · simp [here]
    · simp [here, Ne.symm here]

/-- Where a mark comes first decides what stands in front of it and behind it. -/
theorem append_mark_inj {a b x y : List Char} (front : mark ∉ a) (front' : mark ∉ b) :
    a ++ mark :: x = b ++ mark :: y ↔ a = b ∧ x = y := by
  refine ⟨fun same => ?_, fun ⟨first, second⟩ => by rw [first, second]⟩
  have cuts := congrArg (cutAt? mark) same
  rw [cutAt?_append front, cutAt?_append front'] at cuts
  exact Prod.mk.inj (Option.some.inj cuts)

/-! ### Blank texts -/

theorem trim_eq_nil_iff : trim cs = [] ↔ ∀ c ∈ cs, isSpace c = true := by
  rw [trim, trimEnd, List.reverse_eq_nil_iff, List.dropWhile_eq_nil_iff]
  refine ⟨fun inside => ?_, fun all c member => ?_⟩
  · rw [← List.dropWhile_eq_nil_iff]
    cases start : cs.dropWhile isSpace with
    | nil => rfl
    | cons c rest =>
      -- What is left in front would begin with a character that is no white space.
      have stops := List.head?_dropWhile_not isSpace cs
      have blank := inside c (List.mem_reverse.mpr (by rw [trimStart, start]; exact List.mem_cons_self))
      simp [start, blank] at stops
  · exact all c (List.dropWhile_subset _ (List.mem_reverse.mp member))

theorem isBlank_iff_trim {s : String} : isBlank s = true ↔ trim s.toList = [] := by
  rw [isBlank, List.all_eq_true, trim_eq_nil_iff]

end LakeSchema.Text
