import LakeSchema.Proofs.Document.FieldForm
import LakeSchema.Proofs.Document.Repair

/-!
# What normalising makes of the entries of a document

Normalising rewrites a document entry by entry: what stands at some place of a list is found at the
same place afterwards (`listed?_normalised`, `exists_field_normalised`), and each warning that is not
about a timestamp comes from the rewriting of some field (`exists_field_of_mem_warnings`).
-/

namespace LakeSchema.Document

open Json (Members)

variable {now : Timestamp} {name other : String} {members entry : Members} {supply : IdSupply}
  {w : Warning} {i j : Nat}

/-! ### Entries of lists -/

/-- The items of the list of a name. -/
def items (name : String) (members : Members) : List Json :=
  ((members.get? name).bind Json.asArray?).getD []

/-- The object at some place of the list of a name. -/
def listed? (name : String) (i : Nat) (members : Members) : Option Members :=
  (items name members)[i]?.bind Json.asObject?

theorem listed?_eq_some_iff :
    listed? name i members = some entry ↔ (items name members)[i]? = some (.object entry) := by
  rw [listed?, Option.bind_eq_some_iff]
  refine ⟨fun ⟨value, place, object⟩ => ?_, fun place => ⟨_, place, rfl⟩⟩
  cases value with
  | object found => rw [place, Option.some.inj object]
  | _ => contradiction

theorem mem_items_of_listed? (given : listed? name i members = some entry) :
    .object entry ∈ items name members :=
  List.mem_of_getElem? (listed?_eq_some_iff.mp given)

theorem items_congr {changed : Members} (same : changed.get? name = members.get? name) :
    items name changed = items name members := by
  rw [items, same, items]

theorem listed?_congr {changed : Members} (same : changed.get? name = members.get? name) (i : Nat) :
    listed? name i changed = listed? name i members := by
  rw [listed?, items_congr same, listed?]

theorem items_inItems (name : String) (change : Json → Json × List Warning) (members : Members) :
    items name (inItems name change members).1 =
      (items name members).map fun item => (change item).1 :=
  array_inItems name change members

theorem listed?_inItems (name : String) (change : Members → Members × List Warning) (members : Members)
    (i : Nat) : listed? name i (inItems name (inObject change) members).1 =
      (listed? name i members).map fun entry => (change entry).1 := by
  rw [listed?, items_inItems, List.getElem?_map, listed?]
  cases (items name members)[i]? with
  | none => rfl
  | some value => cases value <;> rfl

theorem items_of_unlisted (unlisted : ∀ items, members.get? name ≠ some (.array items)) :
    items name members = [] := by
  unfold items
  cases given : members.get? name with
  | none => rfl
  | some value =>
    cases value with
    | array items => exact absurd given (unlisted items)
    | _ => rfl

theorem warnings_inItems (name : String) (change : Json → Json × List Warning) (members : Members) :
    (inItems name change members).2 = (items name members).flatMap fun item => (change item).2 := by
  unfold inItems
  split
  · rename_i items given
    rw [Document.items, given]
    exact List.flatMap_map _ _ _
  · rename_i unlisted
    rw [items_of_unlisted unlisted]
    rfl

theorem mem_inItems_iff {change : Members → Members × List Warning} :
    w ∈ (inItems name (inObject change) members).2 ↔
      ∃ i entry, listed? name i members = some entry ∧ w ∈ (change entry).2 := by
  rw [warnings_inItems, List.mem_flatMap]
  refine ⟨fun ⟨value, inside, warned⟩ => ?_, fun ⟨i, entry, given, warned⟩ => ?_⟩
  · obtain ⟨i, place⟩ := List.getElem?_of_mem inside
    cases value with
    | object entry => exact ⟨i, entry, listed?_eq_some_iff.mpr place, warned⟩
    | _ => cases warned
  · exact ⟨.object entry, mem_items_of_listed? given, warned⟩

/-! ### Identifiers -/

/-- A value with its members changed, if it is an object. -/
def withMembers (change : Members → Members) : Json → Json
  | .object members => .object (change members)
  | value => value

/-- Objects of a list are changed one after the other, with a supply that is handed on. -/
theorem forall₂_handedOn {change : Members → IdSupply → Members × IdSupply}
    {all : List Json → IdSupply → List Json × IdSupply} (nil : ∀ supply, (all [] supply).1 = [])
    (object : ∀ members rest supply, (all (.object members :: rest) supply).1 =
      .object (change members supply).1 :: (all rest (change members supply).2).1)
    (plain : ∀ value rest supply, value.asObject? = none →
      (all (value :: rest) supply).1 = value :: (all rest supply).1)
    (items : List Json) (supply : IdSupply) :
    List.Forall₂ (fun item changed => ∃ middle, changed = withMembers (fun members =>
      (change members middle).1) item) items (all items supply).1 := by
  induction items generalizing supply with
  | nil =>
    rw [nil]
    exact .nil
  | cons value rest ih =>
    cases value with
    | object members =>
      rw [object]
      exact .cons ⟨supply, rfl⟩ (ih _)
    | _ =>
      rw [plain _ _ _ rfl]
      exact .cons ⟨supply, rfl⟩ (ih _)

theorem forall₂_assignFieldIds (items : List Json) (supply : IdSupply) :
    List.Forall₂ (fun item changed => ∃ middle, changed = withMembers (fun members =>
      (assignId members middle).1) item) items (assignFieldIds items supply).1 := by
  refine forall₂_handedOn (fun _ => rfl) (fun _ _ _ => rfl) (fun value rest supply plain => ?_) items
    supply
  cases value <;> first | rfl | contradiction

theorem forall₂_assignIds (items : List Json) (supply : IdSupply) :
    List.Forall₂ (fun item changed => ∃ middle, changed = withMembers (fun members =>
      (assignTableIds members middle).1) item) items (assignIds items supply).1 := by
  refine forall₂_handedOn (fun _ => rfl) (fun _ _ _ => rfl) (fun value rest supply plain => ?_) items
    supply
  cases value <;> first | rfl | contradiction

theorem exists_listed_of_forall₂ {change : Members → IdSupply → Members} {changed : Members}
    (each : List.Forall₂ (fun item changed => ∃ middle, changed = withMembers (fun members =>
      change members middle) item) (items name members) (items name changed)) (supply : IdSupply)
    (i : Nat) : ∃ middle, listed? name i changed =
      (listed? name i members).map fun entry => change entry middle := by
  rw [listed?, listed?]
  generalize items name members = front at each
  generalize items name changed = back at each
  induction each generalizing i with
  | nil => exact ⟨supply, rfl⟩
  | cons first _ ih =>
    obtain ⟨middle, rfl⟩ := first
    cases i with
    | zero => exact ⟨middle, by rename_i item _ _ _; cases item <;> rfl⟩
    | succ i => exact ih i

theorem get?_assignId (apart : other ≠ "id") :
    (assignId members supply).1.get? other = members.get? other := by
  unfold assignId
  split
  · rfl
  · rw [Members.get?_put, if_neg apart]

theorem get?_assignTableIds (id : other ≠ "id") (fields : other ≠ "fields") :
    (assignTableIds members supply).1.get? other = members.get? other := by
  unfold assignTableIds
  dsimp only
  split
  · rw [Members.get?_put, if_neg fields, get?_assignId id]
  · exact get?_assignId id

theorem forall₂_assignTableIds (members : Members) (supply : IdSupply) :
    List.Forall₂ (fun item changed => ∃ middle, changed = withMembers (fun members =>
      (assignId members middle).1) item) (items "fields" members)
      (items "fields" (assignTableIds members supply).1) := by
  have same : (assignId members supply).1.get? "fields" = members.get? "fields" :=
    get?_assignId (by decide)
  unfold assignTableIds
  dsimp only
  split
  · rename_i fields given
    rw [items, items, Members.get?_put, if_pos rfl, ← same, given]
    exact forall₂_assignFieldIds fields _
  · rename_i unlisted
    rw [← items_congr same, items_of_unlisted unlisted]
    exact .nil

theorem listed?_assignTableIds (members : Members) (supply : IdSupply) (j : Nat) :
    ∃ middle, listed? "fields" j (assignTableIds members supply).1 =
      (listed? "fields" j members).map fun field => (assignId field middle).1 :=
  exists_listed_of_forall₂ (forall₂_assignTableIds members supply) supply j

/-! ### Tables -/

/-- The members of a document once all tables and fields have identifiers. -/
def identified (members : Members) (supply : IdSupply) : Members :=
  match members.get? "tables" with
  | some (.array items) => members.put "tables" (.array (assignIds items supply).1)
  | _ => members

/-- The names of all tables and fields by which dotted texts are resolved. -/
def index (members : Members) (supply : IdSupply) : List TableNames :=
  (items "tables" (identified members supply)).filterMap tableNames?

/-- The tables of a document, rewritten one by one. -/
def tabled (members : Members) (supply : IdSupply) : Members × List Warning :=
  inItems "tables" (inObject (table (index members supply))) (identified members supply)

theorem identified_of_listed {items : List Json} (given : members.get? "tables" = some (.array items)) :
    identified members supply = members.put "tables" (.array (assignIds items supply).1) := by
  simp only [identified, given]

theorem identified_of_unlisted (unlisted : ∀ items, members.get? "tables" ≠ some (.array items)) :
    identified members supply = members := by
  unfold identified
  split
  · rename_i items given
    exact absurd given (unlisted items)
  · rfl

theorem tables_eq (members : Members) (supply : IdSupply) :
    ∃ rest, tables members supply = ((tabled members supply).1, (tabled members supply).2, rest) := by
  unfold tables tabled index
  split
  · rename_i items given
    refine ⟨(assignIds items supply).2, ?_⟩
    rw [identified_of_listed given]
    simp only [Document.items, Members.get?_put, if_true, Option.bind_some, Json.asArray?,
      Option.getD_some]
  · rename_i unlisted
    refine ⟨supply, ?_⟩
    rw [identified_of_unlisted unlisted]
    unfold inItems
    split
    · rename_i items given
      exact absurd given (unlisted items)
    · rfl

theorem get?_identified (apart : other ≠ "tables") :
    (identified members supply).get? other = members.get? other := by
  unfold identified
  split
  · rw [Members.get?_put, if_neg apart]
  · rfl

theorem forall₂_identified (members : Members) (supply : IdSupply) :
    List.Forall₂ (fun item changed => ∃ middle, changed = withMembers (fun members =>
      (assignTableIds members middle).1) item) (items "tables" members)
      (items "tables" (identified members supply)) := by
  by_cases given : ∃ items, members.get? "tables" = some (.array items)
  · obtain ⟨tables, given⟩ := given
    rw [identified_of_listed given, items, items, Members.get?_put, if_pos rfl, given]
    exact forall₂_assignIds tables supply
  · have unlisted := not_exists.mp given
    rw [identified_of_unlisted unlisted, items_of_unlisted unlisted]
    exact .nil

theorem listed?_identified (members : Members) (supply : IdSupply) (i : Nat) :
    ∃ middle, listed? "tables" i (identified members supply) =
      (listed? "tables" i members).map fun table => (assignTableIds table middle).1 :=
  exists_listed_of_forall₂ (forall₂_identified members supply) supply i

theorem get?_tabled (apart : other ≠ "tables") :
    (tabled members supply).1.get? other = members.get? other := by
  rw [tabled, get?_inItems apart, get?_identified apart]

theorem table_eq (index : List TableNames) (members : Members) : table index members =
    inItems "fields" (inObject (field index (memberText "name" members))) (tags members) := by
  rw [table, memberText_tags (by decide)]

theorem get?_table {index : List TableNames} (tag : other ≠ "tags") (fields : other ≠ "fields") :
    (table index members).1.get? other = members.get? other := by
  rw [table_eq, get?_inItems fields, get?_tags tag]

theorem listed?_table (index : List TableNames) (members : Members) (j : Nat) :
    listed? "fields" j (table index members).1 = (listed? "fields" j members).map fun entry =>
      (field index (memberText "name" members) entry).1 := by
  rw [table_eq, listed?_inItems, listed?_congr (get?_tags (by decide))]

theorem mem_table_iff {index : List TableNames} : w ∈ (table index members).2 ↔
    ∃ j entry, listed? "fields" j members = some entry ∧
      w ∈ (field index (memberText "name" members) entry).2 := by
  have same : (tags members).get? "fields" = members.get? "fields" := get?_tags (by decide)
  rw [table_eq, mem_inItems_iff]
  simp only [listed?_congr same]

/-! ### Documents -/

/-- The members of a document before the entries of its lists get timestamps. -/
def prepared (now : Timestamp) (members : Members) (supply : IdSupply) : Members :=
  viewTags (tabled (timestamps now "project" members).1 supply).1

/-- The members of a document in canonical form. -/
def normalised (now : Timestamp) (members : Members) (supply : IdSupply) : Members :=
  (listTimestamps now timestamped (prepared now members supply)).1

/-- The warnings about a document: those about its own timestamps, about its tables, and about the
timestamps of entries. -/
def warnings (now : Timestamp) (members : Members) (supply : IdSupply) : List Warning :=
  (timestamps now "project" members).2 ++ (tabled (timestamps now "project" members).1 supply).2 ++
    (listTimestamps now timestamped (prepared now members supply)).2

theorem normalise_object (now : Timestamp) (members : Members) (supply : IdSupply) :
    ∃ rest, normalise now (.object members) supply =
      (.object (normalised now members supply), warnings now members supply, rest) := by
  obtain ⟨rest, tables⟩ := tables_eq (timestamps now "project" members).1 supply
  refine ⟨rest, ?_⟩
  simp only [normalise, tables]
  rfl

theorem listed?_normalised (listed : name ∈ timestamped) (i : Nat) :
    listed? name i (normalised now members supply) =
      (listed? name i (prepared now members supply)).map fun entry => (entryTimestamps now entry).1 := by
  rw [listed?, items, normalised, array_listTimestamps listed (by decide), List.getElem?_map, listed?, items]
  cases (((Members.get? name (prepared now members supply)).bind Json.asArray?).getD [])[i]? with
  | none => rfl
  | some value => cases value <;> rfl

/-- The members that hold timestamps. -/
def dates : List String :=
  ["created_at", "updated_at"]

/-- The timestamps of a document itself are settled first. -/
theorem get?_normalised (date : name ∈ dates) : (normalised now members supply).get? name =
    (timestamps now "project" members).1.get? name := by
  have apart : ∀ name ∈ dates, name ∉ timestamped ∧ name ≠ "tables" ∧ name ≠ "metric_views" ∧
      name ≠ "traditional_views" := by decide
  obtain ⟨unlisted, tables, metric, traditional⟩ := apart name date
  rw [normalised, get?_listTimestamps unlisted, prepared, get?_viewTags metric traditional,
    get?_tabled tables]

theorem mem_listTimestamps_iff {names : List String} (once : names.Nodup) :
    w ∈ (listTimestamps now names members).2 ↔ ∃ name ∈ names, ∃ i entry,
      listed? name i members = some entry ∧ w ∈ (entryTimestamps now entry).2 := by
  induction names generalizing members with
  | nil => simp [listTimestamps]
  | cons first names ih =>
    obtain ⟨fresh, once⟩ := List.nodup_cons.mp once
    have same : ∀ name ∈ names, ∀ i, listed? name i
        (inItems first (inObject (entryTimestamps now)) members).1 = listed? name i members := by
      intro name later i
      have apart : name ≠ first := fun equal => fresh (equal ▸ later)
      exact listed?_congr (get?_inItems apart) i
    rw [listTimestamps, List.mem_append, mem_inItems_iff, ih once]
    simp only [List.mem_cons, or_and_right, exists_or, exists_eq_left]
    refine or_congr Iff.rfl (exists_congr fun name => and_congr_right fun later => ?_)
    simp only [same name later]

theorem listed?_tables_normalised (i : Nat) :
    listed? "tables" i (normalised now members supply) =
      (listed? "tables" i (identified (timestamps now "project" members).1 supply)).map fun entry =>
        (entryTimestamps now (table (index (timestamps now "project" members).1 supply) entry).1).1 := by
  have same : (prepared now members supply).get? "tables" =
      (tabled (timestamps now "project" members).1 supply).1.get? "tables" :=
    get?_viewTags (by decide) (by decide)
  rw [listed?_normalised (by decide), listed?_congr same, tabled, listed?_inItems, Option.map_map]
  rfl

theorem listed?_viewTags (view : name ∈ ["metric_views", "traditional_views"]) (i : Nat) :
    listed? name i (viewTags members) = (listed? name i members).map tags := by
  simp only [List.mem_cons, List.not_mem_nil, or_false] at view
  simp only [viewTags, List.foldl_cons, List.foldl_nil]
  rcases view with rfl | rfl
  · rw [listed?_congr (get?_inItems (by decide)), listed?_inItems]
  · rw [listed?_inItems, listed?_congr (get?_inItems (by decide))]

/-- Whatever happens to an entry of a list before it gets timestamps, those that it has are kept. -/
theorem exists_prepared (listed : name ∈ timestamped) (given : listed? name i members = some entry) :
    ∃ changed, listed? name i (prepared now members supply) = some changed ∧
      ∀ other ∈ ["created_at", "updated_at"], changed.get? other = entry.get? other := by
  have differ : ∀ name ∈ timestamped, name ≠ "created_at" ∧ name ≠ "updated_at" := by decide
  have root : listed? name i (timestamps now "project" members).1 = some entry :=
    (listed?_congr (get?_timestamps (differ name listed).1 (differ name listed).2) i).trans given
  have apart : ∀ other ∈ ["created_at", "updated_at"], other ≠ "tags" ∧ other ≠ "id" ∧
      other ≠ "fields" := by decide
  by_cases tables : name = "tables"
  · subst tables
    obtain ⟨middle, entries⟩ := listed?_identified (timestamps now "project" members).1 supply i
    refine ⟨(table (index (timestamps now "project" members).1 supply)
      (assignTableIds entry middle).1).1, ?_, fun other time => ?_⟩
    · rw [prepared, listed?_congr (get?_viewTags (by decide) (by decide)), tabled, listed?_inItems,
        entries, root, Option.map_some, Option.map_some]
    · obtain ⟨tag, id, fields⟩ := apart other time
      rw [get?_table tag fields, get?_assignTableIds id fields]
  · have unchanged : listed? name i (tabled (timestamps now "project" members).1 supply).1 = some entry :=
      (listed?_congr (get?_tabled tables) i).trans root
    by_cases view : name ∈ ["metric_views", "traditional_views"]
    · refine ⟨tags entry, ?_, fun other time => get?_tags (apart other time).1⟩
      rw [prepared, listed?_viewTags view, unchanged, Option.map_some]
    · have other : name ≠ "metric_views" ∧ name ≠ "traditional_views" := by simpa using view
      refine ⟨entry, ?_, fun _ _ => rfl⟩
      rw [prepared, listed?_congr (get?_viewTags other.1 other.2), unchanged]

/-- What has become of a field of a table, which got an identifier before. -/
theorem exists_field_normalised (now : Timestamp) (supply : IdSupply) {field : Members}
    (given : listed? "tables" i members = some entry)
    (inside : listed? "fields" j entry = some field) : ∃ middle table,
      listed? "tables" i (normalised now members supply) = some table ∧
      listed? "fields" j table = some (Document.field
        (index (timestamps now "project" members).1 supply) (memberText "name" entry)
        (assignId field middle).1).1 ∧
      (Document.field (index (timestamps now "project" members).1 supply) (memberText "name" entry)
        (assignId field middle).1).2 ⊆ warnings now members supply := by
  have root : listed? "tables" i (timestamps now "project" members).1 = some entry :=
    (listed?_congr (get?_timestamps (by decide) (by decide)) i).trans given
  obtain ⟨next, entries⟩ := listed?_identified (timestamps now "project" members).1 supply i
  rw [root, Option.map_some] at entries
  obtain ⟨middle, fields⟩ := listed?_assignTableIds entry next j
  rw [inside, Option.map_some] at fields
  have name : memberText "name" (assignTableIds entry next).1 = memberText "name" entry := by
    rw [memberText, get?_assignTableIds (by decide) (by decide), memberText]
  refine ⟨middle, _, by rw [listed?_tables_normalised, entries, Option.map_some], ?_, fun w warned => ?_⟩
  · rw [entryTimestamps, listed?_congr (get?_timestamps (by decide) (by decide)), listed?_table, fields,
      name, Option.map_some]
  · refine List.mem_append_left _ (List.mem_append_right _ ?_)
    rw [tabled, mem_inItems_iff]
    exact ⟨i, _, entries, mem_table_iff.mpr ⟨j, _, fields, name ▸ warned⟩⟩

theorem mem_timestamps_warnings {label : String} (warned : w ∈ (timestamps now label members).2) :
    ∃ name text, w = .timestampReplaced label name text := by
  have single : ∀ {name : String} {members : Members}, w ∈ (timestamp now label name members).2 →
      ∃ name text, w = .timestampReplaced label name text := by
    intro name members warned
    unfold timestamp at warned
    split at warned
    · split at warned
      · cases warned
      · exact ⟨_, _, List.mem_singleton.mp warned⟩
    · cases warned
  exact (List.mem_append.mp warned).elim single single

/-- A warning that is not about a timestamp was given when some field of a table was rewritten, after
that field got an identifier. -/
theorem exists_field_of_mem_warnings (warned : w ∈ warnings now members supply)
    (other : ∀ label name text, w ≠ .timestampReplaced label name text) :
    ∃ i j entry field middle, listed? "tables" i members = some entry ∧
      listed? "fields" j entry = some field ∧
      w ∈ (Document.field (index (timestamps now "project" members).1 supply) (memberText "name" entry)
          (assignId field middle).1).2 := by
  have inTables : w ∈ (tabled (timestamps now "project" members).1 supply).2 := by
    rcases List.mem_append.mp warned with early | late
    · rcases List.mem_append.mp early with root | tables
      · obtain ⟨name, text, same⟩ := mem_timestamps_warnings root
        exact absurd same (other _ _ _)
      · exact tables
    · obtain ⟨_, _, _, _, _, dated⟩ := (mem_listTimestamps_iff (by decide)).mp late
      obtain ⟨name, text, same⟩ := mem_timestamps_warnings dated
      exact absurd same (other _ _ _)
  obtain ⟨i, table, place, inTable⟩ := mem_inItems_iff.mp inTables
  obtain ⟨j, field, within, inField⟩ := mem_table_iff.mp inTable
  obtain ⟨next, entries⟩ := listed?_identified (timestamps now "project" members).1 supply i
  obtain ⟨entry, given, rfl⟩ := Option.map_eq_some_iff.mp (entries.symm.trans place)
  obtain ⟨middle, fields⟩ := listed?_assignTableIds entry next j
  obtain ⟨found, inside, rfl⟩ := Option.map_eq_some_iff.mp (fields.symm.trans within)
  rw [memberText, get?_assignTableIds (by decide) (by decide), ← memberText] at inField
  rw [listed?_congr (get?_timestamps (by decide) (by decide))] at given
  exact ⟨i, j, entry, found, middle, given, inside, inField⟩

end LakeSchema.Document
