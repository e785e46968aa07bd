import LakeSchema.Proofs.Check.Consistency
import LakeSchema.Proofs.Sql.Respelling
import LakeSchema.Schema.Name
import Mathlib.Algebra.Order.BigOperators.Group.List
import Mathlib.Algebra.Order.Ring.Nat
import Mathlib.Data.List.Nodup

/-!
# Tables that are found and tables that are rewritten

The tables that a query reads are looked for in its text without comments and with single spaces,
by the last part of a reference alone; qualification works on the text as it stands and looks at all
parts. A reference that comments and runs of white space leave alone is seen by both, so that they can
differ in the others and in references to other catalogs and schemas only (`tables_agree_iff`).
-/

namespace LakeSchema.Query

open Sql

variable {p : Project} {t : Table} {sql : String} {c : Char} {cs reference : List Char}
  {segs : List Segment}

/-! ### Single spaces -/

/-- Characters as they are, with single spaces. -/
def squeezing : Respelling where
  letter := id
  space _ := rfl
  start _ := rfl
  part _ := rfl
  word _ := rfl
  spells _ _ := rfl
  tick _ := Iff.rfl
  dot _ := Iff.rfl

theorem trimEnd_collapseSpaces (cs : List Char) :
    Text.trimEnd (Text.collapseSpaces cs) = squeezing.text cs := by
  have cut : ∀ {c : Char} (x z : List Char), Text.isSpace c = false →
      Text.trimEnd (x ++ c :: z) = x ++ c :: Text.trimEnd z := fun {c} x z solid => by
    have cut := @Text.dropEndWhile_append_word x [c] z Text.isSpace (by simpa using solid)
      (List.cons_ne_nil _ _)
    rwa [List.append_assoc, List.append_assoc] at cut
  induction cs with
  | nil => rfl
  | cons c cs ih =>
    by_cases blank : Text.isSpace c = true
    · rw [Respelling.text, Text.collapseSpaces, if_pos blank, if_pos blank]
      cases cs with
      | nil => rfl
      | cons d cs =>
        by_cases more : Text.isSpace d = true
        · rw [if_pos (by simpa using more), if_pos (by simpa using more), ih]
        · have solid := Bool.eq_false_iff.mpr more
          rw [if_neg (by simpa using more), if_neg (by simpa using more), ← ih,
            Text.collapseSpaces_cons solid]
          exact (cut [' '] _ solid).trans (congrArg (' ' :: ·) (cut [] _ solid).symm)
    · have solid := Bool.eq_false_iff.mpr blank
      rw [Respelling.text_cons solid, Text.collapseSpaces_cons solid, ← ih]
      exact cut [] _ solid

theorem Pieces.append_left {spaces : List Char} (pieces : Pieces true cs segs)
    (blank : ∀ c ∈ spaces, Text.isSpace c = true) :
    Pieces true (spaces ++ cs) (spaces.map .other ++ segs) := by
  induction spaces with
  | nil => exact pieces
  | cons c spaces ih =>
    obtain ⟨here, later⟩ := List.forall_mem_cons.mp blank
    exact (ih later).pass (isQueryNameStart_of_isSpace here) (Text.isWordChar_of_isSpace here) true

/-- White space in front adds no reference. -/
theorem mentioned_blank_append {spaces : List Char} (blank : ∀ c ∈ spaces, Text.isSpace c = true)
    (cs : List Char) : mentioned (segments (spaces ++ cs)) = mentioned (segments cs) := by
  rw [segments_eq_iff.mpr ((pieces_segments cs).append_left blank), mentioned_append,
    mentioned_others, List.nil_append]

/-- The text without its comments, as the check takes them out. -/
def uncommented (cs : List Char) : List Char :=
  withoutLines false (withoutBlocks false cs)

/-- A cleaned query has the references that the text without comments has, with single spaces. -/
theorem mentioned_clean (cs : List Char) : mentioned (segments (clean cs)) =
    (mentioned (segments (uncommented cs))).map squeezing.text := by
  generalize bare : uncommented cs = text
  have cleaned : clean cs = squeezing.text (Text.trimStart text) := by
    rw [clean, Text.trim, Text.trimStart_collapseSpaces, ← bare]
    exact trimEnd_collapseSpaces _
  rw [cleaned, mentioned_respelled]
  conv_rhs => rw [← Text.takeWhile_append_trimStart text]
  rw [mentioned_blank_append fun c member => List.mem_takeWhile_imp member]

/-! ### What is found and what is rewritten -/

/-- The references of a query as they stand in it, comments included. -/
def written (sql : String) : List String :=
  (mentioned (segments sql.toList)).map String.ofList

/-- Qualification rewrites a reference to a table: the name that it is given shows in the result. -/
def Rewrites (p : Project) (sql : String) (t : Table) : Prop :=
  ∃ naming other : String → String, (∀ name, name ≠ t.name → naming name = other name) ∧
    qualify p sql naming ≠ qualify p sql other

/-- A reference with a catalog and a schema that are not those of the project, whose last part names
a table of it. -/
def NamesElsewhere (p : Project) (reference : String) (t : Table) : Prop :=
  ∃ catalog schema table, parts reference = [catalog, schema, table] ∧
    ¬(Text.sameIgnoringCase catalog p.catalogName = true ∧
      Text.sameIgnoringCase schema p.schemaName = true) ∧
    p.tableNamed? table = some t

theorem partsFrom_ne_nil (quoted : Bool) (current cs : List Char) :
    partsFrom quoted current cs ≠ [] := by
  induction cs generalizing quoted current with
  | nil => exact List.cons_ne_nil _ _
  | cons c cs ih =>
    rw [partsFrom]
    split
    · exact List.cons_ne_nil _ _
    · exact ih _ _

/-- Detection goes by the last part of a reference alone, qualification by all of them. -/
theorem tableNamed?_tableName_iff (reference : String) :
    p.tableNamed? (tableName reference) = some t ↔
      projectTable? p reference = some t ∨ NamesElsewhere p reference t := by
  obtain ⟨table, front, backwards⟩ : ∃ table front, (parts reference).reverse = table :: front :=
    List.exists_cons_of_ne_nil (List.reverse_ne_nil_iff.mpr (partsFrom_ne_nil _ _ _))
  have forwards : parts reference = front.reverse ++ [table] := by
    rw [← List.reverse_reverse (parts reference), backwards, List.reverse_cons]
  have last : tableName reference = table := by
    rw [tableName, forwards, List.getLast?_concat]
    rfl
  have short (other : front.length ≠ 2) (means : projectTable? p reference = p.tableNamed? table) :
      p.tableNamed? table = some t ↔
        projectTable? p reference = some t ∨ NamesElsewhere p reference t := by
    rw [means, iff_self_or]
    rintro ⟨catalog, schema, table, same, -⟩
    rw [same] at backwards
    obtain ⟨-, rfl⟩ := List.cons.inj backwards
    exact absurd rfl other
  rw [last]
  rcases front with _ | ⟨schema, _ | ⟨catalog, _ | ⟨more, front⟩⟩⟩
  · exact short (by simp) (by rw [projectTable?, backwards])
  · exact short (by simp) (by rw [projectTable?, backwards])
  · rw [projectTable?, backwards]
    dsimp only
    by_cases own : Text.sameIgnoringCase catalog p.catalogName = true ∧
        Text.sameIgnoringCase schema p.schemaName = true
    · rw [if_pos (Bool.and_eq_true_iff.mpr own), iff_self_or]
      rintro ⟨catalog', schema', table', same, other, -⟩
      rw [forwards] at same
      cases same
      exact absurd own other
    · rw [if_neg (Bool.and_eq_true_iff.not.mpr own)]
      constructor
      · exact fun named => .inr ⟨catalog, schema, table, forwards, own, named⟩
      · rintro (none | ⟨catalog', schema', table', same, -, named⟩)
        · cases none
        · rw [forwards] at same
          cases same
          exact named
  · exact short (by simp) (by rw [projectTable?, backwards])

theorem references_eq (sql : String) : references sql =
    ((mentioned (segments (clean sql.toList))).map String.ofList).eraseDups := by
  rw [references, mentioned, List.map_filterMap]
  refine congrArg List.eraseDups (List.filterMap_congr fun segment _ => ?_)
  cases segment <;> rfl

theorem mem_tables_iff {id : String} : id ∈ tables p sql ↔
    ∃ reference ∈ references sql, ∃ t, p.tableNamed? (tableName reference) = some t ∧ t.id = id := by
  simp only [tables, List.mem_eraseDups, List.mem_filterMap, Option.map_eq_some_iff]

theorem squeezing_text_eq (last : cs.getLast? = some c) (solid : Text.isSpace c = false) :
    squeezing.text cs = Text.collapseSpaces cs := by
  obtain ⟨front, rfl⟩ := List.getLast?_eq_some_iff.mp last
  rw [← trimEnd_collapseSpaces, Text.collapseSpaces_append solid, Text.collapseSpaces_cons solid]
  have cut := @Text.dropEndWhile_append_word (Text.collapseSpaces front) [c] [] Text.isSpace
    (by simpa using solid) (List.cons_ne_nil _ _)
  rw [List.append_nil] at cut
  exact cut.trans (List.append_nil _)

/-- The references of a query once its comments are taken out. -/
def bare (sql : String) : List String :=
  (mentioned (segments (uncommented sql.toList))).map String.ofList

/-- A reference with single spaces in its names. -/
def singleSpaced (reference : String) : String :=
  String.ofList (Text.collapseSpaces reference.toList)

/-- Detection goes through the references of the query without comments. -/
theorem mem_references_iff {reference : String} :
    reference ∈ references sql ↔ ∃ original ∈ bare sql, singleSpaced original = reference := by
  have spaced : (mentioned (segments (uncommented sql.toList))).map squeezing.text =
      (mentioned (segments (uncommented sql.toList))).map Text.collapseSpaces := by
    refine List.map_congr_left fun reference member => ?_
    obtain ⟨text, rest, read⟩ := (pieces_segments _).exists_of_mentioned member
    obtain ⟨c, last, solid⟩ := getLast?_of_reference? read
    exact squeezing_text_eq last solid
  rw [references_eq, mentioned_clean, spaced, List.mem_eraseDups, bare, List.map_map]
  simp [singleSpaced]

theorem exists_mem_written_iff {holds : String → Prop} :
    (∃ reference ∈ written sql, holds reference) ↔
      ∃ lead reference, Segment.table lead reference ∈ segments sql.toList ∧
        holds (String.ofList reference) := by
  simp only [written, List.mem_map, mem_mentioned_iff]
  constructor
  · rintro ⟨_, ⟨reference, ⟨lead, member⟩, rfl⟩, means⟩
    exact ⟨lead, reference, member, means⟩
  · rintro ⟨lead, reference, member, means⟩
    exact ⟨_, ⟨reference, ⟨lead, member⟩, rfl⟩, means⟩

theorem projectTable?_mem {reference : String} (means : projectTable? p reference = some t) :
    t ∈ p.tables := by
  have named {name : String} (found : p.tableNamed? name = some t) : t ∈ p.tables :=
    List.mem_of_find?_eq_some found
  rw [projectTable?] at means
  split at means
  · split at means
    · exact named means
    · cases means
  · exact named means
  · cases means

theorem sameIgnoringCase_of_tableNamed? {name : String} (found : p.tableNamed? name = some t) :
    Text.sameIgnoringCase t.name name = true :=
  List.find?_some (p := fun u : Table => Text.sameIgnoringCase u.name name) found

/-- No two tables have one name, the case of ASCII letters aside. -/
def TablesDiffer (p : Project) : Prop :=
  (p.tables.map fun t => Text.asciiLowered t.name).Nodup

theorem TablesDiffer.eq {u : Table} (differ : TablesDiffer p) (here : t ∈ p.tables)
    (there : u ∈ p.tables) (same : Text.asciiLowered t.name = Text.asciiLowered u.name) : t = u :=
  List.inj_on_of_nodup_map differ here there same

theorem TablesDiffer.tableNamed?_eq {name : String} (differ : TablesDiffer p)
    (present : t ∈ p.tables) (same : Text.sameIgnoringCase t.name name = true) :
    p.tableNamed? name = some t := by
  cases found : p.tableNamed? name with
  | none => exact absurd same (List.find?_eq_none.mp found t present)
  | some u =>
    have alike := sameIgnoringCase_of_tableNamed? found
    rw [differ.eq (List.mem_of_find?_eq_some found) present]
    rw [Text.sameIgnoringCase, beq_iff_eq] at alike same
    exact alike.trans same.symm

theorem rewrites_iff (differ : TablesDiffer p) (present : t ∈ p.tables) :
    Rewrites p sql t ↔ ∃ reference ∈ written sql, projectTable? p reference = some t := by
  rw [exists_mem_written_iff]
  constructor
  · rintro ⟨naming, other, elsewhere, changes⟩
    by_contra none
    refine changes (congrArg String.ofList ?_)
    rw [List.flatMap_def, List.flatMap_def]
    refine congrArg List.flatten (List.map_congr_left fun segment member => ?_)
    cases segment with
    | other c => rfl
    | table lead reference =>
      rw [Segment.qualified, Segment.qualified]
      cases means : projectTable? p (String.ofList reference) with
      | none => rfl
      | some u =>
        have apart : u.name ≠ t.name := fun same => none ⟨lead, reference, member, by
          rw [means, differ.eq (projectTable?_mem means) present (congrArg _ same)]⟩
        dsimp only
        rw [elsewhere u.name apart]
  · rintro ⟨lead, reference, member, means⟩
    -- A name of one character makes the text longer than an empty one.
    refine ⟨fun _ => "", fun name => if name = t.name then "x" else "", fun name apart =>
      (if_neg apart).symm, fun same => ?_⟩
    · have lengths := congrArg String.length same
      simp only [qualify, String.length_ofList, List.length_flatMap] at lengths
      refine Nat.ne_of_lt (List.sum_lt_sum _ _ ?_ ⟨_, member, ?_⟩) lengths
      · intro segment _
        cases segment with
        | other c => exact Nat.le_refl _
        | table lead reference =>
          rw [Segment.qualified, Segment.qualified]
          cases projectTable? p (String.ofList reference) <;> simp
      · simp [Segment.qualified, means]

/-! ### Where the two agree -/

/-- A reference that comments and runs of white space leave alone. -/
def Plain (sql reference : String) : Prop :=
  reference ∈ bare sql ∧ reference ∈ written sql ∧ singleSpaced reference = reference

instance (sql reference : String) : Decidable (Plain sql reference) :=
  inferInstanceAs (Decidable (_ ∧ _ ∧ _))

/-- A plain reference to the table is found and rewritten. -/
def ReadAlike (p : Project) (sql : String) (t : Table) : Prop :=
  ∃ reference, Plain sql reference ∧ projectTable? p reference = some t

/-- A reference leads to the table once the comments are taken out, but need not be rewritten: it is not
plain, or names a table of another catalog or schema, or another table with the identifier. -/
def FoundOtherwise (p : Project) (sql : String) (t : Table) : Prop :=
  ∃ reference ∈ bare sql, ∃ u, p.tableNamed? (tableName (singleSpaced reference)) = some u ∧
    u.id = t.id ∧ (¬Plain sql reference ∨ NamesElsewhere p reference u ∨ u ≠ t)

/-- A reference to the table is rewritten, but need not be found, as it is not plain. -/
def RewrittenOtherwise (p : Project) (sql : String) (t : Table) : Prop :=
  ∃ reference ∈ written sql, ¬Plain sql reference ∧ projectTable? p reference = some t

theorem found_iff : t.id ∈ tables p sql ↔ ReadAlike p sql t ∨ FoundOtherwise p sql t := by
  simp only [mem_tables_iff, mem_references_iff]
  constructor
  · rintro ⟨_, ⟨reference, member, rfl⟩, u, named, same⟩
    by_cases plain : Plain sql reference
    · have means := named
      rw [plain.2.2, tableNamed?_tableName_iff] at means
      by_cases other : u = t
      · subst other
        exact means.imp (fun own => ⟨reference, plain, own⟩) fun elsewhere =>
          ⟨reference, member, u, named, rfl, .inr (.inl elsewhere)⟩
      · exact .inr ⟨reference, member, u, named, same, .inr (.inr other)⟩
    · exact .inr ⟨reference, member, u, named, same, .inl plain⟩
  · rintro (⟨reference, plain, means⟩ | ⟨reference, member, u, named, same, -⟩)
    · obtain ⟨member, -, single⟩ := plain
      exact ⟨reference, ⟨reference, member, single⟩, t,
        (tableNamed?_tableName_iff reference).mpr (.inl means), rfl⟩
    · exact ⟨_, ⟨reference, member, rfl⟩, u, named, same⟩

theorem rewrites_iff_readAlike (differ : TablesDiffer p) (present : t ∈ p.tables) :
    Rewrites p sql t ↔ ReadAlike p sql t ∨ RewrittenOtherwise p sql t := by
  rw [rewrites_iff differ present]
  constructor
  · rintro ⟨reference, member, means⟩
    by_cases plain : Plain sql reference
    · exact .inl ⟨reference, plain, means⟩
    · exact .inr ⟨reference, member, plain, means⟩
  · rintro (⟨reference, plain, means⟩ | ⟨reference, member, -, means⟩)
    · exact ⟨reference, plain.2.1, means⟩
    · exact ⟨reference, member, means⟩

/-- The tables that a query is found to read are those that its qualification rewrites, exactly if
every table without a plain reference to it is found through another one just when one is rewritten. -/
theorem tables_agree_iff (differ : TablesDiffer p) (sql : String) :
    (∀ t ∈ p.tables, (t.id ∈ tables p sql ↔ Rewrites p sql t)) ↔
      ∀ t ∈ p.tables, ReadAlike p sql t ∨ (FoundOtherwise p sql t ↔ RewrittenOtherwise p sql t) := by
  refine forall₂_congr fun t present => ?_
  rw [found_iff, rewrites_iff_readAlike differ present]
  by_cases alike : ReadAlike p sql t <;> simp [alike]

def ordersAndStores : Project :=
  { Project.empty "P" "shop" "main" "sales" Project.newYear with
    tables := [.plain "T" "orders" Project.newYear, .plain "S" "stores" Project.newYear] }

/-- A comment with a name behind `FROM` that is no table. -/
def commentedQuery : String :=
  "SELECT * FROM orders -- all rows from yesterday"

theorem commentedQuery_agrees : TablesDiffer ordersAndStores ∧ ∀ t ∈ ordersAndStores.tables,
    (t.id ∈ tables ordersAndStores commentedQuery ↔ Rewrites ordersAndStores commentedQuery t) := by
  have differ : TablesDiffer ordersAndStores := by
    unfold TablesDiffer
    decide +kernel
  have found : bare commentedQuery = ["orders"] := by decide +kernel
  have shown : written commentedQuery = ["orders", "yesterday"] := by decide +kernel
  refine ⟨differ, (tables_agree_iff differ commentedQuery).mpr (List.forall_mem_cons.mpr
    ⟨.inl ⟨"orders", by decide +kernel, by decide +kernel⟩, List.forall_mem_singleton.mpr (.inr ?_)⟩)⟩
  refine iff_of_false ?_ ?_
  · rintro ⟨reference, member, u, named, same, -⟩
    rw [found, List.mem_singleton] at member
    subst member
    revert same
    obtain rfl := Option.some_inj.mp (named.symm.trans rfl)
    decide
  · rintro ⟨reference, member, -, means⟩
    have none : ∀ reference ∈ ["orders", "yesterday"],
      projectTable? ordersAndStores reference ≠ some (.plain "S" "stores" Project.newYear) := by
      decide +kernel
    exact none reference (shown ▸ member) means

/-- Qualification does not see the table behind a comment. -/
theorem orderBehindComment_found_only :
    (∀ t ∈ ordersAndStores.tables, Name.tableProblem? t.name = none) ∧
    TablesDiffer ordersAndStores ∧
    tables ordersAndStores "SELECT * FROM /* c */ orders" = ["T"] ∧
    ∀ t, ¬Rewrites ordersAndStores "SELECT * FROM /* c */ orders" t := by
  refine ⟨by decide +kernel, by unfold TablesDiffer; decide +kernel, by decide +kernel, ?_⟩
  rintro t ⟨naming, other, -, changes⟩
  exact changes rfl

end LakeSchema.Query
