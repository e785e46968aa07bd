import LakeSchema.Proofs.Sql.Detection
import LakeSchema.Proofs.Sql.Identifier

/-!
# Letter case in queries

Which tables a query is found to read does not depend on the case of its ASCII letters
(`tables_eq_of_sameIgnoringCase`): comments, references and their parts are read in any case alike.
-/

namespace LakeSchema

namespace Query

open Sql

variable {p : Project} {sql other : String} {c d : Char} {cs rest : List Char}

/-- A text with its ASCII letters in lower case. -/
abbrev low (cs : List Char) : List Char :=
  cs.map Char.toLower

theorem isSpace_toLower : ∀ c : Char, Text.isSpace c.toLower = Text.isSpace c :=
  Text.apply_toLower Text.isSpace (by decide)

theorem toLower_toLower : ∀ c : Char, c.toLower.toLower = c.toLower :=
  Text.apply_toLower Char.toLower (by decide)

/-- A character that is no letter stands for itself. -/
theorem toLower_eq_iff (alone : ∀ n < 128, ((Char.ofNat n).toLower == d) = (Char.ofNat n == d))
    (c : Char) : c.toLower = d ↔ c = d := by
  rw [← beq_iff_eq, ← beq_iff_eq (a := c), Text.apply_toLower (· == d) alone]

/-- Characters in lower case, with single spaces. -/
def folding : Respelling where
  letter := Char.toLower
  space := isSpace_toLower
  start := Text.apply_toLower isQueryNameStart (by decide)
  part := Text.apply_toLower isQueryNamePart (by decide)
  word := Text.apply_toLower Text.isWordChar (by decide)
  spells keyword c := by
    rw [isLetter, isLetter, Text.apply_toLower Char.toUpper (by decide),
      Text.apply_toLower (· == 'ſ') (by decide), Text.apply_toLower (·.toNat == 0x212A) (by decide)]
  tick _ := toLower_eq_backtick_iff
  dot := toLower_eq_iff (by decide)

theorem folding_text (cs : List Char) : folding.text cs = low (squeezing.text cs) := by
  induction cs with
  | nil => rfl
  | cons c cs ih =>
    rw [Respelling.text, Respelling.text, ih]
    split
    · split <;> rfl
    · rfl

theorem folding_text_low (cs : List Char) : folding.text (low cs) = folding.text cs := by
  induction cs with
  | nil => rfl
  | cons c cs ih =>
    have next : (low cs).head?.all Text.isSpace = cs.head?.all Text.isSpace := by
      cases cs with
      | nil => rfl
      | cons d cs => exact isSpace_toLower d
    have letter : folding.letter c.toLower = folding.letter c := toLower_toLower c
    rw [low, List.map_cons, Respelling.text, Respelling.text, isSpace_toLower, letter, next, ih]

/-! ### Comments -/

theorem head?_low {d : Char} (alone : ∀ c : Char, c.toLower = d ↔ c = d) (cs : List Char) :
    (low cs).head? = some d ↔ cs.head? = some d := by
  cases cs with
  | nil => exact Iff.rfl
  | cons c cs => simp [alone]

theorem occursIn_closing_low (cs : List Char) :
    Text.occursIn ['*', '/'] (low cs) = Text.occursIn ['*', '/'] cs := by
  induction cs with
  | nil => rfl
  | cons c cs ih =>
    rw [Bool.eq_iff_iff, low, List.map_cons, closing_cons, closing_cons, ih,
      toLower_eq_iff (by decide), head?_low (toLower_eq_iff (by decide))]

theorem withoutBlocks_low (inside : Bool) (cs : List Char) :
    withoutBlocks inside (low cs) = low (withoutBlocks inside cs) := by
  have star := toLower_eq_iff (d := '*') (by decide)
  have slash := toLower_eq_iff (d := '/') (by decide)
  have pair {d : Char} {cs rest : List Char} (second : ∀ c : Char, c.toLower = d ↔ c = d)
      (same : low cs = d :: rest) : ∃ tail, cs = d :: tail := by
    obtain ⟨e, tail, rfl, here, -⟩ := List.map_eq_cons_iff.mp same
    exact ⟨tail, by rw [(second e).mp here]⟩
  fun_induction withoutBlocks inside cs with
  | case1 => simp [withoutBlocks]
  | case2 rest ih => exact congrArg (' ' :: ·) ih
  | case3 c rest goesOn ih =>
    rw [low, List.map_cons, withoutBlocks]
    · exact ih
    · intro tail first second
      obtain ⟨tail', rfl⟩ := pair slash second
      exact goesOn tail' ((star c).mp first) rfl
  | case4 rest occurs ih =>
    have occurs : Text.occursIn ['*', '/'] (low rest) = true := by rwa [occursIn_closing_low]
    rw [← ih]
    exact (withoutBlocks.eq_4 (low rest)).trans (if_pos occurs)
  | case5 rest unclosed =>
    have unclosed : ¬Text.occursIn ['*', '/'] (low rest) = true := by rwa [occursIn_closing_low]
    exact (withoutBlocks.eq_4 (low rest)).trans (if_neg unclosed)
  | case6 c rest goesOn ih =>
    rw [low, List.map_cons, withoutBlocks]
    · exact congrArg (c.toLower :: ·) ih
    · intro tail first second
      obtain ⟨tail', rfl⟩ := pair star second
      exact goesOn tail' ((slash c).mp first) rfl

theorem withoutLines_low (inside : Bool) (cs : List Char) :
    withoutLines inside (low cs) = low (withoutLines inside cs) := by
  have ends : ∀ c : Char, (c.toLower == '\n') = (c == '\n') :=
    Text.apply_toLower (· == '\n') (by decide)
  fun_induction withoutLines inside cs with
  | case1 => simp [withoutLines]
  | case2 c rest here ih =>
    rw [low, List.map_cons, withoutLines, if_pos (by rw [ends, here])]
    exact congrArg (c.toLower :: ·) ih
  | case3 c rest goesOn ih =>
    rw [low, List.map_cons, withoutLines, if_neg (by rwa [ends])]
    exact ih
  | case4 rest ih => exact congrArg (' ' :: ·) ih
  | case5 c rest goesOn ih =>
    rw [low, List.map_cons, withoutLines]
    · exact congrArg (c.toLower :: ·) ih
    · intro tail first second
      have dash := toLower_eq_iff (d := '-') (by decide)
      obtain ⟨e, tail', rfl, here, -⟩ := List.map_eq_cons_iff.mp second
      exact goesOn tail' ((dash c).mp first) (by rw [(dash e).mp here])

theorem uncommented_low (cs : List Char) : uncommented (low cs) = low (uncommented cs) := by
  rw [uncommented, withoutBlocks_low, withoutLines_low]
  rfl

/-! ### Parts of references -/

theorem dropWhile_low {f : Char → Bool} (same : ∀ c : Char, f c.toLower = f c) (cs : List Char) :
    (low cs).dropWhile f = low (cs.dropWhile f) := by
  rw [List.dropWhile_map, show f ∘ Char.toLower = f from funext same]

theorem beq_backtick_toLower : ∀ c : Char, (c.toLower == backtick) = (c == backtick) :=
  Text.apply_toLower (· == backtick) (by decide)

theorem unquoted_low (cs : List Char) : unquoted (low cs) = Text.asciiLowered (unquoted cs) := by
  rw [unquoted, dropWhile_low beq_backtick_toLower, ← List.map_reverse,
    dropWhile_low beq_backtick_toLower, ← List.map_reverse, Text.asciiLowered, unquoted,
    String.toList_ofList]

theorem partsFrom_low (quoted : Bool) (current cs : List Char) :
    partsFrom quoted (current.map Char.toLower) (cs.map Char.toLower) =
      (partsFrom quoted current cs).map Text.asciiLowered := by
  induction cs generalizing quoted current with
  | nil =>
    rw [List.map_nil, partsFrom, partsFrom, ← List.map_reverse, unquoted_low]
    rfl
  | cons c cs ih =>
    rw [List.map_cons, partsFrom, partsFrom, beq_backtick_toLower,
      Text.apply_toLower (· == '.') (by decide), ← List.map_reverse, unquoted_low]
    split
    · rw [List.map_cons, ← ih]
      rfl
    · rw [← ih]
      rfl

theorem tableNamed?_asciiLowered (name : String) :
    p.tableNamed? (Text.asciiLowered name) = p.tableNamed? name := by
  have twice : Text.asciiLowered (Text.asciiLowered name) = Text.asciiLowered name := by
    rw [Text.asciiLowered_eq_iff, Text.asciiLowered, String.toList_ofList, List.map_map]
    exact List.map_congr_left fun c _ => toLower_toLower c
  simp only [Project.tableNamed?, Text.sameIgnoringCase, twice]

/-- The table that a reference means goes by its letters in any case. -/
theorem tableNamed?_tableName_low (reference : List Char) :
    p.tableNamed? (tableName (String.ofList (low reference))) =
      p.tableNamed? (tableName (String.ofList reference)) := by
  have spelled : parts (String.ofList (low reference)) =
      (parts (String.ofList reference)).map Text.asciiLowered := by
    rw [parts, parts, String.toList_ofList, String.toList_ofList]
    exact partsFrom_low false [] reference
  rw [tableName, tableName, spelled, List.getLast?_map]
  cases last : (parts (String.ofList reference)).getLast? with
  | none => exact absurd (List.getLast?_eq_none_iff.mp last) (partsFrom_ne_nil _ _ _)
  | some name => exact tableNamed?_asciiLowered name

/-! ### Tables -/

/-- Repetitions may be left out before a look-up as well as after it. -/
theorem eraseDups_filterMap {α β : Type} [BEq α] [LawfulBEq α] [BEq β] [LawfulBEq β]
    (f : α → Option β) : (items : List α) →
      (items.eraseDups.filterMap f).eraseDups = (items.filterMap f).eraseDups
  | [] => rfl
  | a :: rest => by
    -- A look-up that skips the first item has the same results without its repetitions.
    have skips (g : α → Option β) (none : g a = none) :
        ((rest.filter fun b => !b == a).eraseDups.filterMap g).eraseDups =
          (rest.filterMap g).eraseDups := by
      rw [eraseDups_filterMap g (rest.filter fun b => !b == a), List.filterMap_filter]
      refine congrArg List.eraseDups (List.filterMap_congr fun b _ => ?_)
      by_cases same : b = a <;> simp [same, none]
    rw [List.eraseDups_cons]
    cases found : f a with
    | none =>
      rw [List.filterMap_cons_none found, List.filterMap_cons_none found]
      exact skips f found
    | some b =>
      rw [List.filterMap_cons_some found, List.filterMap_cons_some found, List.eraseDups_cons,
        List.eraseDups_cons, List.filter_filterMap, List.filter_filterMap]
      exact congrArg (b :: ·) (skips _ (by simp [found]))
termination_by items => items.length
decreasing_by exact Nat.lt_succ_of_le (List.length_filter_le _ rest)

/-- The tables of a query, from its text without comments in lower case. -/
theorem tables_eq (p : Project) (sql : String) : tables p sql =
    ((mentioned (segments (folding.text (uncommented sql.toList)))).filterMap fun reference =>
      (p.tableNamed? (tableName (String.ofList reference))).map (·.id)).eraseDups := by
  rw [tables, references_eq, eraseDups_filterMap, mentioned_clean, mentioned_respelled,
    List.filterMap_map, List.filterMap_map, List.filterMap_map]
  refine congrArg List.eraseDups (List.filterMap_congr fun reference _ => ?_)
  simp only [Function.comp_apply, folding_text, tableNamed?_tableName_low]

/-- Queries that differ in the case of ASCII letters alone read the same tables. -/
theorem tables_eq_of_sameIgnoringCase (same : Text.sameIgnoringCase sql other = true) :
    tables p sql = tables p other := by
  have alike : low sql.toList = low other.toList :=
    Text.asciiLowered_eq_iff.mp (beq_iff_eq.mp same)
  have folded (cs : List Char) :
      folding.text (uncommented cs) = folding.text (uncommented (low cs)) := by
    rw [uncommented_low, folding_text_low]
  rw [tables_eq, tables_eq, folded, alike, ← folded]

end Query
end LakeSchema
