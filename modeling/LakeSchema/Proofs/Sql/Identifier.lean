import LakeSchema.Compile.Ddl
import LakeSchema.Proofs.Text.AsciiCase

/-!
# Quoted names

Quoting keeps names apart: a plain name never begins with a backtick, and between backticks the
doubling of backticks can be undone. This holds up to the case of ASCII letters as well
(`asciiLowered_qualified_inj`).
-/

namespace LakeSchema

namespace Text

theorem asciiLowered_append (a b : String) :
    asciiLowered (a ++ b) = asciiLowered a ++ asciiLowered b := by
  simp [asciiLowered]

theorem asciiLowered_eq_iff {a b : String} :
    asciiLowered a = asciiLowered b ↔ a.toList.map Char.toLower = b.toList.map Char.toLower :=
  String.ofList_inj

end Text

namespace Sql

variable {a b : String} {cs ds : List Char}

theorem toLower_eq_backtick_iff {c : Char} : c.toLower = backtick ↔ c = backtick := by
  by_cases ascii : c.toNat < 128
  · exact Text.ascii_induct (motive := fun c => c.toLower = backtick ↔ c = backtick) (by decide) ascii
  · rw [Text.toLower_of_not_ascii ascii]

theorem inBackticks_map_toLower (cs : List Char) :
    (inBackticks cs).map Char.toLower = inBackticks (cs.map Char.toLower) := by
  have doubled : ∀ c, (if c == backtick then [backtick, backtick] else [c]).map Char.toLower =
      if c.toLower == backtick then [backtick, backtick] else [c.toLower] := by
    intro c
    by_cases tick : c = backtick
    · subst tick
      rfl
    · simp [tick, toLower_eq_backtick_iff]
  simp only [inBackticks, Text.replaceChar, List.map_cons, List.map_append, List.map_flatMap,
    List.flatMap_map, doubled]
  rfl

theorem replaceChar_backtick_inj
    (same : Text.replaceChar backtick [backtick, backtick] cs =
      Text.replaceChar backtick [backtick, backtick] ds) : cs = ds := by
  -- Doubled or not, a character comes first in its replacement.
  have first : ∀ c (cs : List Char), Text.replaceChar backtick [backtick, backtick] (c :: cs) =
      c :: ((if c == backtick then [backtick] else []) ++
        Text.replaceChar backtick [backtick, backtick] cs) := by
    intro c cs
    by_cases tick : c = backtick <;> simp [Text.replaceChar, tick]
  induction cs generalizing ds with
  | nil =>
    cases ds with
    | nil => rfl
    | cons d ds =>
      rw [first] at same
      contradiction
  | cons c cs ih =>
    cases ds with
    | nil =>
      rw [first] at same
      contradiction
    | cons d ds =>
      rw [first, first, List.cons.injEq] at same
      obtain ⟨rfl, rest⟩ := same
      rw [ih (List.append_cancel_left rest)]

theorem inBackticks_inj (same : inBackticks cs = inBackticks ds) : cs = ds := by
  unfold inBackticks at same
  exact replaceChar_backtick_inj (List.append_cancel_right (List.cons.inj same).2)

theorem isIdentifierPart_of_isPlainName (plain : isPlainName cs = true) :
    ∀ c ∈ cs, Text.isIdentifierPart c = true := by
  cases cs with
  | nil => exact nofun
  | cons first rest =>
    obtain ⟨start, parts⟩ := Bool.and_eq_true_iff.mp plain
    intro c member
    rcases List.mem_cons.mp member with rfl | later
    · rcases Bool.or_eq_true_iff.mp start with letter | underscore
      · simp [Text.isIdentifierPart, Char.isAlphanum, letter]
      · simp [Text.isIdentifierPart, underscore]
    · exact List.all_eq_true.mp parts c later

/-- A plain name does not begin like a name between backticks. -/
theorem plain_ne_inBackticks (plain : isPlainName cs) : cs.map Char.toLower ≠ inBackticks ds := by
  cases cs with
  | nil => simp [isPlainName] at plain
  | cons c rest =>
    intro same
    have tick := toLower_eq_backtick_iff.mp (List.cons.inj same).1
    have start := (Bool.and_eq_true_iff.mp plain).1
    rw [tick] at start
    exact absurd start (by decide)

theorem quoteIdentifier_toList (name : String) :
    (quoteIdentifier name).toList = name.toList ∧ isPlainName name.toList ∨
      (quoteIdentifier name).toList = inBackticks name.toList := by
  unfold quoteIdentifier
  split
  · rename_i plain
    exact .inl ⟨rfl, (Bool.and_eq_true_iff.mp plain).1⟩
  · exact .inr String.toList_ofList

/-- Names are told apart by their quoted forms, up to the case of ASCII letters. -/
theorem asciiLowered_quoteIdentifier_inj
    (same : Text.asciiLowered (quoteIdentifier a) = Text.asciiLowered (quoteIdentifier b)) :
    Text.asciiLowered a = Text.asciiLowered b := by
  rw [Text.asciiLowered_eq_iff] at same ⊢
  rcases quoteIdentifier_toList a with ⟨quotedA, plainA⟩ | quotedA <;>
    rcases quoteIdentifier_toList b with ⟨quotedB, plainB⟩ | quotedB <;>
    rw [quotedA, quotedB] at same
  case inl.inl => exact same
  case inl.inr =>
    rw [inBackticks_map_toLower] at same
    exact absurd same (plain_ne_inBackticks plainA)
  case inr.inl =>
    rw [inBackticks_map_toLower] at same
    exact absurd same.symm (plain_ne_inBackticks plainB)
  case inr.inr =>
    rw [inBackticks_map_toLower, inBackticks_map_toLower] at same
    exact inBackticks_inj same

end Sql

namespace Target

theorem qualified_eq (target : Target) (name : String) :
    target.qualified name = Sql.quoteIdentifier target.catalog ++ "." ++
      (Sql.quoteIdentifier target.schema ++ "." ++ Sql.quoteIdentifier name) := by
  simp [qualified, Sql.quoteQualified, String.intercalate_cons_cons]

theorem lowered_eq_of_qualified {target : Target} {a b : String}
    (same : Text.asciiLowered (target.qualified a) = Text.asciiLowered (target.qualified b)) :
    Text.lowered a = Text.lowered b := by
  simp only [qualified_eq, Text.asciiLowered_append, String.append_right_inj] at same
  exact Text.lowered_eq_of_asciiLowered_eq (Sql.asciiLowered_quoteIdentifier_inj same)

end Target
end LakeSchema
