import LakeSchema.Proofs.Text.AsciiCase

/-!
# Characters of words

The table of word characters holds the other forms of S and K, and no white space.
-/

namespace LakeSchema.Text

variable {c : Char}

/-- Membership in the table, by comparisons that evaluate quickly. -/
theorem isWordChar_of_not_ascii (beyond : ¬c.toNat < 128) : isWordChar c =
    Ranges.word.toList.any fun range => range.1.ble c.toNat && c.toNat.ble range.2 := by
  rw [isWordChar, if_neg beyond, inRanges, ← Array.any_toList]
  refine congrArg (Ranges.word.toList.any ·) (funext fun range => ?_)
  rw [Bool.eq_iff_iff]
  simp

theorem isWordChar_longS : isWordChar 'ſ' = true := by
  rw [isWordChar_of_not_ascii (by decide)]
  decide +kernel

theorem isWordChar_kelvin : isWordChar (Char.ofNat 0x212A) = true := by
  rw [isWordChar_of_not_ascii (by decide)]
  decide +kernel

/-- The code points of white space beyond ASCII. -/
def wideSpaces : List Nat :=
  [0x85, 0xA0, 0x1680] ++ List.range' 0x2000 11 ++ [0x2028, 0x2029, 0x202F, 0x205F, 0x3000]

/-- No white space belongs to a word. -/
theorem isWordChar_of_isSpace (blank : isSpace c = true) : isWordChar c = false := by
  by_cases ascii : c.toNat < 128
  · exact ascii_induct (motive := fun c => isSpace c = true → isWordChar c = false)
      (by decide) ascii blank
  · have member : c.toNat ∈ wideSpaces := by
      simp [isSpace] at blank
      simp [wideSpaces, List.mem_range'_1]
      omega
    have apart : ∀ n ∈ wideSpaces,
        (Ranges.word.toList.any fun range => range.1.ble n && n.ble range.2) = false := by
      decide +kernel
    rw [isWordChar_of_not_ascii ascii]
    exact apart c.toNat member

theorem isSpace_of_isWordChar (letter : isWordChar c = true) : isSpace c = false := by
  refine Bool.eq_false_iff.mpr fun blank => ?_
  rw [isWordChar_of_isSpace blank] at letter
  cases letter

end LakeSchema.Text
