import LakeSchema.Check.Table
import LakeSchema.Proofs.Compile.ClosedStatements
import LakeSchema.Proofs.Sql.Nesting

/-!
# Whether a column stays one column

The types of elements, members, keys and values and the qualifiers of intervals stand in a column as
they were given. A column without a default stays in one piece exactly if the text inside of its type
leaves the brackets at the depth that it finds them at (`columnDefinition_contained_iff`).
-/

namespace LakeSchema

open Sql

namespace Field

variable {f : Field} {inner closing : String} {d e : Nat}

/-! ### Inside of a type -/

/-- The text inside of a type that holds others, and how many brackets it stands in. -/
def typeInside? (f : Field) : Option (Nat × String) :=
  match f.dataType, f.typeParameters with
  | .array, some (.element type) => some (1, nestedType type)
  | .map, some (.keyValue key value) => some (1, nestedType key ++ ", " ++ nestedType value)
  | .struct, some (.struct members) => some (1, ", ".intercalate (members.map StructMember.text))
  | .interval, some (.qualifier text) => some (0, nestedType text)
  | _, _ => none

/-- The text inside of the type leaves the depth of brackets as it is. -/
def TypeKeepsDepth (f : Field) : Prop :=
  ∀ inside ∈ f.typeInside?, Spans inside.1 inside.2 inside.1

instance (f : Field) : Decidable f.TypeKeepsDepth :=
  inferInstanceAs (Decidable (∀ inside ∈ f.typeInside?, Spans inside.1 inside.2 inside.1))

theorem level_keyword (dataType : DataType) : Level dataType.keyword := by
  cases dataType <;> exact level_words (by decide)

theorem level_toString (n : Nat) : Level (toString n) :=
  level_of_all (not_mem_of_toString n (List.all_iff_forall_prop.mp rfl))

/-- A type with numbers between its brackets. -/
theorem spans_numbered (dataType : DataType) {numbers : String} (numbered : Spans 1 numbers 1)
    (plain : Plain numbers) : Spans 0 (dataType.keyword ++ "(" ++ numbers ++ ")") 0 := by
  have keyword := level_keyword dataType
  have front : Spans 0 (dataType.keyword ++ "(") 1 :=
    (keyword.spans 0).append (by decide) (keyword.apart _)
  have numbers : Spans 0 (dataType.keyword ++ "(" ++ numbers) 1 :=
    front.append numbered (plain.toTrailing.apart _)
  exact numbers.append (by decide) ((plain_words (by decide)).toTrailing.apart _)

/-- Apart from what is inside of it, every type closes the brackets that it opens. -/
theorem spans_columnType (none : f.typeInside? = none) : Spans 0 f.columnType 0 := by
  fun_cases columnType f <;> rename_i parameters type <;>
    simp only [typeInside?, type, parameters, reduceCtorEq] at none
  case case1 precision scale =>
    have comma : Plain "," := plain_words (by decide)
    have front : Spans 1 (toString precision.toNat ++ ",") 1 :=
      ((level_toString _).spans 1).append (by decide) (comma.toTrailing.apart _)
    have plain : Plain (toString precision.toNat ++ ",") := (level_toString _).toPlain.append comma
    have both := spans_numbered f.dataType
      (front.append ((level_toString scale.toNat).spans 1) (plain.apart _))
      (plain.append (level_toString _).toPlain)
    simpa only [String.append_assoc] using both
  case case2 n | case3 n | case8 n | case9 n =>
    exact spans_numbered f.dataType ((level_toString _).spans 1) (level_toString _).toPlain
  case case10 => exact (level_keyword f.dataType).spans 0

/-- What closes a type at one depth. -/
def closings : List (Nat × String) :=
  [(1, ">"), (0, "")]

theorem columnType_eq_of_typeInside? (inside : f.typeInside? = some (d, inner)) :
    ∃ opening closing, f.columnType = opening ++ inner ++ closing ∧ Plain opening ∧
      Spans 0 opening d ∧ (d, closing) ∈ closings := by
  fun_cases typeInside? f <;> rename_i parameters type <;>
    simp only [typeInside?, type, parameters, reduceCtorEq, Option.some.injEq,
      Prod.mk.injEq] at inside <;>
    obtain ⟨rfl, rfl⟩ := inside
  case case1 element =>
    refine ⟨"ARRAY<", ">", ?_, plain_words (by decide), by decide, by decide⟩
    simp only [columnType, parameters, type]
  case case2 =>
    refine ⟨"MAP<", ">", ?_, plain_words (by decide), by decide, by decide⟩
    simp only [columnType, parameters, type, String.append_assoc]
  case case3 =>
    refine ⟨"STRUCT<", ">", ?_, plain_words (by decide), by decide, by decide⟩
    simp only [columnType, parameters, type]
  case case4 =>
    refine ⟨"INTERVAL ", "", ?_, plain_words (by decide), by decide, by decide⟩
    simp only [columnType, parameters, type, String.append_empty]

/-! ### Behind a type -/

def required (nullable : Bool) : String :=
  if nullable then "" else " NOT NULL"

/-- What stands in a column behind its type, when it has no default. -/
def constraints (nullable : Bool) (comment : Option String) : String :=
  required nullable ++ clause " COMMENT " ((nonBlank? comment).map stringLiteral)

theorem columnDefinition_eq (noDefault : nonBlank? f.defaultValue = none)
    (comment : Option String) :
    ({ f with comment } : Field).columnDefinition =
      quoteIdentifier f.name ++ " " ++ (f.columnType ++ constraints f.nullable comment) := by
  have none : nonBlank? ({ f with comment } : Field).defaultValue = none := noDefault
  rw [columnDefinition, none]
  simp only [Option.map_none, clause, String.append_empty, constraints, String.append_assoc]
  rfl

theorem level_required (nullable : Bool) : Level (required nullable) := by
  cases nullable <;> exact level_words (by decide)

theorem level_constraints (nullable : Bool) (comment : Option String) :
    Level (constraints nullable comment) := by
  refine (level_required nullable).append ?_
  cases nonBlank? comment with
  | none => exact level_words (by decide)
  | some text =>
    have words : Level " COMMENT " := level_words (by decide)
    exact words.append (level_stringLiteral text)

/-- A comment closes the quote or backtick that a type leaves open, so that a comma of it is shown. -/
theorem depthBehind?_comment {q : Place} (inside : q ∈ quotedPlaces) (e : Nat) :
    depthBehind? e (shownFrom columnLexis ⟨q.region, false⟩ (stringLiteral ",\x60,").toList) ≠
      some 0 := by
  have literal : (stringLiteral ",\x60,").toList = ['\'', ',', backtick, ',', '\''] := by decide
  have shown : ∀ q ∈ quotedPlaces,
      shownFrom columnLexis ⟨q.region, false⟩ ['\'', ',', backtick, ',', '\''] ∈
        [[' ', ',', backtick, ' ', ' '], [' ', ' ', ' ', ',', '\'']] := by decide
  have shown := shown q inside
  rw [List.mem_cons, List.mem_singleton] at shown
  -- At depth zero the comma separates; from any other depth the text does not get to zero.
  rcases shown with same | same <;> rw [literal, same] <;>
    cases e <;> simp [depthBehind?, depthStep?, separates, backtick]

section Closing

variable (closes : (d, closing) ∈ closings)
include closes

theorem plain_closing : Plain closing := by
  have all : ∀ entry ∈ closings, entry.2.toList.all (fun c => !signs.contains c) := by decide
  exact plain_words (all (d, closing) closes)

theorem plain_constraints (nullable : Bool) (comment : Option String) :
    Plain (closing ++ constraints nullable comment) :=
  (plain_closing closes).append (level_constraints nullable comment).toPlain

theorem spans_constraints (nullable : Bool) (comment : Option String) :
    Spans d (closing ++ constraints nullable comment) 0 := by
  have all : ∀ entry ∈ closings, Spans entry.1 entry.2 0 := by decide
  have level := level_constraints nullable comment
  exact (all (d, closing) closes).append (level.spans 0) (level.toTrailing.apart _)

theorem quiet_constraints (nullable : Bool) :
    (closing ++ (required nullable ++ " COMMENT ")).toList.all
      fun c => !('\\' :: signs).contains c := by
  have all : ∀ entry ∈ closings, ∀ nullable : Bool,
      (entry.2 ++ (required nullable ++ " COMMENT ")).toList.all
        fun c => !('\\' :: signs).contains c := by decide
  exact all (d, closing) closes nullable

theorem depthBehind?_constraints {q : Place} (inside : q ∈ quotedPlaces) (nullable : Bool) (e : Nat) :
    depthBehind? e (shownFrom columnLexis q
      (closing ++ constraints nullable (some ",\x60,")).toList) ≠ some 0 := by
  have front : Plain (closing ++ (required nullable ++ " COMMENT ")) :=
    (plain_closing closes).append ((level_required nullable).toPlain.words (by decide))
  have split : closing ++ constraints nullable (some ",\x60,") =
      closing ++ (required nullable ++ " COMMENT ") ++ stringLiteral ",\x60," := by
    simp only [constraints, String.append_assoc]
    rfl
  have hidden := scans_quoted inside (by simp) (quiet_constraints closes nullable)
  have still : ∀ c ∈ shownFrom columnLexis q (closing ++ (required nullable ++ " COMMENT ")).toList,
      c ∉ turns := fun c member => (hidden.each c member).symm ▸ (by decide : ' ' ∉ turns)
  rw [split, String.toList_append, depth_append (front.apart _), depthBehind?_of_all still,
    hidden.ends, Option.bind_some]
  exact depthBehind?_comment inside e

theorem spans_of_contained {nullable : Bool} (each : ∀ comment, depthBehind? d
      (shown columnLexis (inner ++ (closing ++ constraints nullable comment)).toList) = some 0) :
    Spans d inner d := by
  set q := placeAfter columnLexis .outside inner.toList with place
  -- The depth behind the inner text does not depend on the comment.
  have behind : ∀ comment, ∃ e, depthBehind? d (shown columnLexis inner.toList) = some e ∧
      depthBehind? e (shownFrom columnLexis q (closing ++ constraints nullable comment).toList) =
        some 0 := by
    intro comment
    have tail := (plain_constraints closes nullable comment).toTrailing
    have whole := each comment
    rw [String.toList_append, shown, depth_append (tail.apart _)] at whole
    exact Option.bind_eq_some_iff.mp whole
  have ends : q ∈ .outside :: quotedPlaces := placeAfter_mem_quotedPlaces List.mem_cons_self
  rcases List.mem_cons.mp ends with outside | inside
  · obtain ⟨e, reached, left⟩ := behind none
    rw [outside] at left
    obtain rfl := depthBehind?_injective left (spans_constraints closes nullable none).depth
    exact ⟨reached, place ▸ outside⟩
  · obtain ⟨e, -, left⟩ := behind (some ",\x60,")
    exact absurd left (depthBehind?_constraints closes inside nullable e)

end Closing

theorem depth_columnDefinition_iff (noDefault : nonBlank? f.defaultValue = none)
    (comment : Option String) :
    Contained ({ f with comment } : Field).columnDefinition ↔
      depthBehind? 0
        (shown columnLexis (f.columnType ++ constraints f.nullable comment).toList) = some 0 := by
  have name : Level (quoteIdentifier f.name ++ " ") :=
    (level_quoteIdentifier f.name).append (level_words (by decide))
  rw [columnDefinition_eq noDefault, Contained, (name.spans 0).depth_append (name.apart _)]

/-- A column without a default stays in one piece whatever its comment is, exactly if the text inside
of its type leaves the depth of brackets as it is. -/
theorem columnDefinition_contained_iff (noDefault : nonBlank? f.defaultValue = none) :
    (∀ comment, Contained ({ f with comment } : Field).columnDefinition) ↔ f.TypeKeepsDepth := by
  simp only [depth_columnDefinition_iff noDefault]
  cases within : f.typeInside? with
  | none =>
    refine iff_of_true (fun comment => ?_) (by simp [TypeKeepsDepth, within])
    have level := level_constraints f.nullable comment
    exact ((spans_columnType within).append (level.spans 0) (level.toTrailing.apart _)).depth
  | some inside =>
    obtain ⟨d, inner⟩ := inside
    obtain ⟨opening, closing, type, plain, opens, closes⟩ := columnType_eq_of_typeInside? within
    have front : ∀ comment,
        depthBehind? 0 (shown columnLexis (f.columnType ++ constraints f.nullable comment).toList) =
          depthBehind? d
            (shown columnLexis (inner ++ (closing ++ constraints f.nullable comment)).toList) := by
      intro comment
      rw [type, String.append_assoc, String.append_assoc, opens.depth_append (plain.apart _)]
    simp only [front, TypeKeepsDepth, within, Option.mem_some_iff, forall_eq']
    refine ⟨spans_of_contained closes, fun keeps comment => ?_⟩
    have tail := (plain_constraints closes f.nullable comment).toTrailing
    exact (keeps.append (spans_constraints closes f.nullable comment) (tail.apart _)).depth

/-- An array of structs, with a map among their members. -/
def nestedColumn : Field :=
  { Field.plain "F" "lines" .array with
    typeParameters := some (.element "struct<sku: string, prices: map<string, decimal(10,2)>>") }

theorem nestedColumn_contained :
    (∀ comment, Contained ({ nestedColumn with comment } : Field).columnDefinition) ∧
      nestedColumn.columnDefinition =
        "lines ARRAY<STRUCT<SKU: STRING, PRICES: MAP<STRING, DECIMAL(10,2)>>>" :=
  ⟨(columnDefinition_contained_iff rfl).mpr (by decide +kernel), by decide +kernel⟩

/-- An element type that closes its array and opens another one behind a further column. -/
def smuggledColumn : Field :=
  { Field.plain "F" "tags" .array with
    typeParameters := some (.element "int>, injected string, more array<int") }

theorem smuggledColumn_not_contained :
    Name.fieldProblem? smuggledColumn.name = none ∧ smuggledColumn.parameterProblem? = none ∧
      smuggledColumn.defaultValue = none ∧
      smuggledColumn.columnDefinition = "tags ARRAY<INT>, INJECTED STRING, MORE ARRAY<INT>" ∧
      ¬Contained smuggledColumn.columnDefinition := by
  decide +kernel

end Field
end LakeSchema
