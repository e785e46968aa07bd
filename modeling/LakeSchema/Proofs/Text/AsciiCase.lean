import LakeSchema.Text.Case

/-!
# Two notions of lower case

The full lower case mapping ignores the case of ASCII letters (`lowered_asciiLowered`): they have the
same forms, and the final sigma does not tell them apart either. So texts that are equal up to the
case of ASCII letters have one lower case form.
-/

namespace LakeSchema.Text

variable {c : Char}

/-- Beyond ASCII nothing changes. -/
theorem toLower_of_not_ascii (beyond : ¬ c.toNat < 128) : c.toLower = c := by
  unfold Char.toLower
  refine dif_neg fun upper => ?_
  have bound : c.toNat ≤ 90 := upper.2
  omega

/-- What holds of all ASCII characters holds of one. -/
theorem ascii_induct {motive : Char → Prop} (all : ∀ n < 128, motive (Char.ofNat n))
    (ascii : c.toNat < 128) : motive c := by
  have one := all c.toNat ascii
  rwa [Char.ofNat_toNat] at one

/-- What the ASCII letters do not change by their case, no character does. -/
theorem apply_toLower {α : Type} (f : Char → α)
    (ascii : ∀ n < 128, f (Char.ofNat n).toLower = f (Char.ofNat n)) (c : Char) :
    f c.toLower = f c := by
  by_cases below : c.toNat < 128
  · exact ascii_induct (motive := fun c => f c.toLower = f c) ascii below
  · rw [toLower_of_not_ascii below]

theorem toLower_eq_sigma_iff : c.toLower = 'Σ' ↔ c = 'Σ' := by
  by_cases ascii : c.toNat < 128
  · exact ascii_induct (motive := fun c => c.toLower = 'Σ' ↔ c = 'Σ') (by decide) ascii
  · rw [toLower_of_not_ascii ascii]

theorem isCaseIgnorable_toLower : isCaseIgnorable c.toLower = isCaseIgnorable c :=
  apply_toLower isCaseIgnorable (by decide) c

theorem isCased_toLower : isCased c.toLower = isCased c :=
  apply_toLower isCased (by decide) c

theorem lowerChar_toLower : lowerChar c.toLower = lowerChar c :=
  apply_toLower lowerChar (by decide) c

theorem casedAhead_map_toLower (cs : List Char) :
    casedAhead (cs.map Char.toLower) = casedAhead cs := by
  induction cs with
  | nil => rfl
  | cons c rest ih =>
    unfold casedAhead at ih ⊢
    rw [List.map_cons, List.dropWhile_cons, List.dropWhile_cons, isCaseIgnorable_toLower]
    split
    · exact ih
    · simp [isCased_toLower]

theorem lowerFrom_map_toLower (before cs : List Char) :
    lowerFrom (before.map Char.toLower) (cs.map Char.toLower) = lowerFrom before cs := by
  induction cs generalizing before with
  | nil => rfl
  | cons c rest ih =>
    have sigma : (c.toLower == 'Σ') = (c == 'Σ') := by
      rw [Bool.eq_iff_iff, beq_iff_eq, beq_iff_eq, toLower_eq_sigma_iff]
    rw [List.map_cons, lowerFrom, lowerFrom, sigma, casedAhead_map_toLower, casedAhead_map_toLower,
      lowerChar_toLower, ← List.map_cons, ih]

theorem lowered_asciiLowered (s : String) : lowered (asciiLowered s) = lowered s := by
  rw [lowered, asciiLowered, String.toList_ofList, lower, lowered, lower]
  exact congrArg String.ofList (lowerFrom_map_toLower [] s.toList)

/-- Texts that are equal up to the case of ASCII letters have one lower case form. -/
theorem lowered_eq_of_asciiLowered_eq {a b : String} (same : asciiLowered a = asciiLowered b) :
    lowered a = lowered b := by
  rw [← lowered_asciiLowered a, same, lowered_asciiLowered]

end LakeSchema.Text
