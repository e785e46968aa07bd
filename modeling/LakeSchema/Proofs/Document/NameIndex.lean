import LakeSchema.Proofs.Document.Entries
import LakeSchema.Proofs.Text.TopLevel

/-!
# The field that a dotted text names

Dotted texts are resolved by the names of tables and fields in a document. What a text resolves to has
the two names that it ends in (`pointsAt_of_resolve`), and such a field is found if no two tables, and
no two fields of a table, have one name (`resolve?_eq_some_iff`).
-/

namespace LakeSchema.Document

open Json (Members)

variable {members table field : Members} {supply : IdSupply} {text : String} {names : String × String}
  {target : Location} {i j k l : Nat}

/-! ### Names of tables and fields -/

/-- The members of a table or field with this identifier, and with this name in some case. -/
structure Named (members : Members) (id name : String) : Prop where
  id : members.get? "id" = some (.string id)
  name : ∃ own, members.get? "name" = some (.string own) ∧ Text.lowered own = Text.lowered name

/-- The target is a field of the document, and these are the names of its table and of itself. -/
def PointsAt (members : Members) (names : String × String) (target : Location) : Prop :=
  ∃ i j table field, listed? "tables" i members = some table ∧ Named table target.table names.1 ∧
    listed? "fields" j table = some field ∧ Named field target.field names.2

theorem textOf?_object {name : String} :
    textOf? name (.object members) = some text ↔ members.get? name = some (.string text) := by
  rw [textOf?, Json.member?, Option.bind_eq_some_iff]
  refine ⟨fun ⟨value, given, string⟩ => ?_, fun given => ⟨_, given, rfl⟩⟩
  cases value with
  | string other => rw [given, Option.some.inj string]
  | _ => contradiction

theorem fieldName?_object_iff {entry : String × String} : fieldName? (.object field) = some entry ↔
    ∃ name, field.get? "name" = some (.string name) ∧ field.get? "id" = some (.string entry.2) ∧
      entry.1 = Text.lowered name := by
  refine ⟨fun found => ?_, fun ⟨name, named, identified, same⟩ => ?_⟩
  · obtain ⟨name, named, found⟩ := Option.bind_eq_some_iff.mp found
    obtain ⟨id, identified, same⟩ := Option.bind_eq_some_iff.mp found
    obtain rfl := Option.some.inj same
    exact ⟨name, textOf?_object.mp named, textOf?_object.mp identified, rfl⟩
  · have whole : fieldName? (.object field) = some (Text.lowered name, entry.2) := by
      simp only [fieldName?, textOf?_object.mpr named, textOf?_object.mpr identified]
      rfl
    rw [whole, ← same]

theorem tableNames?_object_iff {entry : TableNames} : tableNames? (.object table) = some entry ↔
    ∃ name, table.get? "name" = some (.string name) ∧ table.get? "id" = some (.string entry.id) ∧
      entry.name = Text.lowered name ∧ entry.fields = (items "fields" table).filterMap fieldName? := by
  refine ⟨fun found => ?_, fun ⟨name, named, identified, same, fields⟩ => ?_⟩
  · obtain ⟨id, identified, found⟩ := Option.bind_eq_some_iff.mp found
    obtain ⟨name, named, same⟩ := Option.bind_eq_some_iff.mp found
    obtain rfl := Option.some.inj same
    exact ⟨name, textOf?_object.mp named, textOf?_object.mp identified, rfl, rfl⟩
  · have whole : tableNames? (.object table) =
        some ⟨Text.lowered name, entry.id, (items "fields" table).filterMap fieldName?⟩ := by
      simp only [tableNames?, textOf?_object.mpr named, textOf?_object.mpr identified]
      rfl
    rw [whole, ← same, ← fields]

theorem mem_filterMap_items_iff {α : Type} {name : String} {f : Json → Option α} {x : α}
    (objects : ∀ value, f value ≠ none → value.asObject? ≠ none) :
    x ∈ (items name members).filterMap f ↔
      ∃ i entry, listed? name i members = some entry ∧ f (.object entry) = some x := by
  rw [List.mem_filterMap]
  refine ⟨fun ⟨value, inside, found⟩ => ?_, fun ⟨i, entry, given, found⟩ => ?_⟩
  · obtain ⟨i, place⟩ := List.getElem?_of_mem inside
    have object := objects value (by simp [found])
    cases value with
    | object entry => exact ⟨i, entry, listed?_eq_some_iff.mpr place, found⟩
    | _ => exact absurd rfl object
  · exact ⟨.object entry, mem_items_of_listed? given, found⟩

theorem mem_index_iff {entry : TableNames} : entry ∈ index members supply ↔
    ∃ i table, listed? "tables" i (identified members supply) = some table ∧
      tableNames? (.object table) = some entry :=
  mem_filterMap_items_iff fun value given => by
    cases value <;> first | exact Option.some_ne_none _ | exact absurd rfl given

theorem mem_fieldNames_iff {entry : String × String} :
    entry ∈ (items "fields" table).filterMap fieldName? ↔
      ∃ j field, listed? "fields" j table = some field ∧ fieldName? (.object field) = some entry :=
  mem_filterMap_items_iff fun value given => by
    cases value <;> first | exact Option.some_ne_none _ | exact absurd rfl given

/-! ### Resolving -/

/-- What a dotted text resolves to has the names that the text ends in. -/
theorem pointsAt_of_resolve (resolved : resolve? (index members supply) text = some target) :
    ∃ names, lastTwo? text = some names ∧ PointsAt (identified members supply) names target := by
  obtain ⟨names, split, resolved⟩ := Option.bind_eq_some_iff.mp resolved
  obtain ⟨entry, found, resolved⟩ := Option.bind_eq_some_iff.mp resolved
  obtain ⟨column, last, same⟩ := Option.bind_eq_some_iff.mp resolved
  obtain rfl := Option.some.inj same
  obtain ⟨i, table, place, read⟩ := mem_index_iff.mp (List.mem_of_find?_eq_some found)
  obtain ⟨name, named, identified, sameName, fields⟩ := tableNames?_object_iff.mp read
  have inside := List.mem_reverse.mp (List.mem_of_find?_eq_some last)
  rw [fields] at inside
  obtain ⟨j, field, within, read⟩ := mem_fieldNames_iff.mp inside
  obtain ⟨own, fieldNamed, fieldId, sameField⟩ := fieldName?_object_iff.mp read
  have ofTable : entry.name = Text.lowered names.1 := by simpa using List.find?_some found
  have ofField : column.1 = Text.lowered names.2 := by simpa using List.find?_some last
  exact ⟨names, split, i, j, table, field, place, ⟨identified, name, named, sameName.symm.trans ofTable⟩,
    within, fieldId, own, fieldNamed, sameField.symm.trans ofField⟩

/-- Items are told apart by their names in lower case. -/
def Apart (items : List Json) : Prop :=
  (items.map fun item => (textOf? "name" item).map Text.lowered).Nodup

theorem find?_eq_some_of_unique {α : Type} {p : α → Bool} {x : α} {xs : List α} (member : x ∈ xs)
    (holds : p x = true) (unique : ∀ y ∈ xs, p y = true → y = x) : xs.find? p = some x := by
  cases found : xs.find? p with
  | none => exact absurd holds (List.find?_eq_none.mp found x member)
  | some y => rw [unique y (List.mem_of_find?_eq_some found) (List.find?_some found)]

theorem textOf?_of_named {id word : String} (named : Named members id word) :
    (textOf? "name" (.object members)).map Text.lowered = some (Text.lowered word) := by
  obtain ⟨own, given, same⟩ := named.name
  rw [textOf?_object.mpr given, Option.map_some, same]

theorem Apart.eq_of_named {name id id' word : String} {first second : Members}
    (apart : Apart (items name members)) (here : listed? name i members = some first)
    (there : listed? name j members = some second) (named : Named first id word)
    (other : Named second id' word) : i = j ∧ first = second := by
  have place := listed?_eq_some_iff.mp here
  have place' := listed?_eq_some_iff.mp there
  obtain rfl := getElem?_inj_of_nodup apart place place'
    ((textOf?_of_named named).trans (textOf?_of_named other).symm)
  exact ⟨rfl, Option.some.inj (here.symm.trans there)⟩

/-- No two tables, and no two fields of a table, have one name in lower case. -/
structure NamesApart (members : Members) : Prop where
  tables : Apart (items "tables" members)
  fields : ∀ i table, listed? "tables" i members = some table → Apart (items "fields" table)

theorem resolve?_of_pointsAt (apart : NamesApart (identified members supply))
    (split : lastTwo? text = some names) (points : PointsAt (identified members supply) names target) :
    resolve? (index members supply) text = some target := by
  obtain ⟨i, j, table, field, place, ⟨tableId, name, named, ofTable⟩, within,
    ⟨fieldId, own, owned, ofField⟩⟩ := points
  have entry : (index members supply).find? (·.name == Text.lowered names.1) =
      some ⟨Text.lowered name, target.table, (items "fields" table).filterMap fieldName?⟩ := by
    refine find?_eq_some_of_unique (mem_index_iff.mpr ⟨i, table, place,
      tableNames?_object_iff.mpr ⟨name, named, tableId, rfl, rfl⟩⟩) (by simpa using ofTable) ?_
    intro other inside matching
    obtain ⟨k, second, place', read⟩ := mem_index_iff.mp inside
    obtain ⟨word, worded, secondId, sameName, _⟩ := tableNames?_object_iff.mp read
    have same : other.name = Text.lowered names.1 := by simpa using matching
    obtain ⟨_, rfl⟩ := apart.tables.eq_of_named place place' ⟨tableId, name, named, ofTable⟩
      ⟨secondId, word, worded, sameName.symm.trans same⟩
    exact Option.some.inj (read.symm.trans
      (tableNames?_object_iff.mpr ⟨name, named, tableId, rfl, rfl⟩))
  have column : ((items "fields" table).filterMap fieldName?).reverse.find?
      (·.1 == Text.lowered names.2) = some (Text.lowered own, target.field) := by
    refine find?_eq_some_of_unique (List.mem_reverse.mpr (mem_fieldNames_iff.mpr ⟨j, field, within,
      fieldName?_object_iff.mpr ⟨own, owned, fieldId, rfl⟩⟩)) (by simpa using ofField) ?_
    intro other inside matching
    obtain ⟨k, second, within', read⟩ := mem_fieldNames_iff.mp (List.mem_reverse.mp inside)
    obtain ⟨word, worded, secondId, sameName⟩ := fieldName?_object_iff.mp read
    have same : other.1 = Text.lowered names.2 := by simpa using matching
    obtain ⟨_, rfl⟩ := (apart.fields i table place).eq_of_named within within'
      ⟨fieldId, own, owned, ofField⟩ ⟨secondId, word, worded, sameName.symm.trans same⟩
    exact Option.some.inj (read.symm.trans (fieldName?_object_iff.mpr ⟨own, owned, fieldId, rfl⟩))
  rw [resolve?, split]
  simp only [Option.bind_eq_bind, Option.bind_some, entry, column]

/-- A dotted text resolves to the field of the two names that it ends in, and to nothing if there is
none. -/
theorem resolve?_eq_some_iff (apart : NamesApart (identified members supply))
    (split : lastTwo? text = some names) : resolve? (index members supply) text = some target ↔
      PointsAt (identified members supply) names target := by
  refine ⟨fun resolved => ?_, resolve?_of_pointsAt apart split⟩
  obtain ⟨names', split', points⟩ := pointsAt_of_resolve resolved
  exact Option.some.inj (split.symm.trans split') ▸ points

/-! ### Dotted texts -/

/-- A name without dots, backticks and outer white space. -/
structure Undotted (name : String) : Prop where
  dots : '.' ∉ name.toList
  ticks : '\x60' ∉ name.toList
  trimmed : Text.trimmed name = name

/-- A name, maybe between backticks. -/
def Ticked (name : String) (cs : List Char) : Prop :=
  ∃ a b, cs = List.replicate a '\x60' ++ name.toList ++ List.replicate b '\x60'

/-- A text that ends in the names of a table and of a field, with a dot between them and maybe further
dotted names in front. -/
structure Dotted (text table field : String) : Prop where
  names : Undotted table ∧ Undotted field
  text : ∃ front first second, (front = [] ∨ ∃ path, front = path ++ ['.']) ∧ Ticked table first ∧
    Ticked field second ∧ text.toList = front ++ first ++ '.' :: second

variable {name : String} {cs : List Char}

theorem bare_ticked (plain : Undotted name) (ticked : Ticked name cs) : bare cs = name := by
  obtain ⟨a, b, rfl⟩ := ticked
  have ticks : ∀ n, ∀ c ∈ List.replicate n '\x60', (c == '\x60') = true := by
    intro n c member
    rw [List.eq_of_mem_replicate member]
    rfl
  have none : ∀ c ∈ name.toList, (c == '\x60') = false := fun c member =>
    beq_false_of_ne fun same => plain.ticks (same ▸ member)
  have kept : (name.toList.reverse).dropWhile (· == '\x60') = name.toList.reverse :=
    Text.dropWhile_append_rest (List.forall_mem_nil _)
      fun c last => none c (List.mem_reverse.mp (List.mem_of_head? last))
  have back : (name.toList ++ List.replicate b '\x60').reverse.dropWhile (· == '\x60') =
      name.toList.reverse := by
    rw [List.reverse_append, List.reverse_replicate, List.dropWhile_append_of_pos (ticks b), kept]
  rw [bare, List.append_assoc, List.dropWhile_append_of_pos (ticks a)]
  cases letters : name.toList with
  | nil =>
    have all : (List.replicate b '\x60').dropWhile (· == '\x60') = [] :=
      List.dropWhile_eq_nil_iff.mpr (ticks b)
    rw [List.nil_append, all]
    exact String.toList_inj.mp letters.symm
  | cons c rest =>
    rw [letters] at none back
    rw [List.cons_append, List.dropWhile_cons_of_neg (by simp [none c List.mem_cons_self]),
      ← List.cons_append, back, List.reverse_reverse, ← letters, String.ofList_toList]

theorem trim_ticked (plain : Undotted name) (ticked : Ticked name cs) : Text.trim cs = cs := by
  have same := congrArg String.toList plain.trimmed
  rw [Text.trimmed, String.toList_ofList] at same
  obtain ⟨first, last⟩ := Text.trim_eq_self_iff.mp same
  obtain ⟨a, b, rfl⟩ := ticked
  have tick : ∀ n, ∀ c ∈ List.replicate n '\x60', Text.isSpace c = false := by
    intro n c member
    rw [List.eq_of_mem_replicate member]
    decide
  refine Text.trim_eq_self_iff.mpr ⟨fun c begins => ?_, fun c ends => ?_⟩
  · rw [List.head?_append, List.head?_append, Option.mem_def, Option.or_eq_some_iff,
      Option.or_eq_some_iff] at begins
    rcases begins with (front | ⟨_, inside⟩) | ⟨_, back⟩
    · exact tick a c (List.mem_of_head? front)
    · exact first c inside
    · exact tick b c (List.mem_of_head? back)
  · rw [List.getLast?_append, List.getLast?_append, Option.mem_def, Option.or_eq_some_iff,
      Option.or_eq_some_iff] at ends
    rcases ends with back | ⟨_, inside | ⟨_, front⟩⟩
    · exact tick b c (List.mem_of_getLast? back)
    · exact last c inside
    · exact tick a c (List.mem_of_getLast? front)

theorem undotted_ticked (plain : Undotted name) (ticked : Ticked name cs) : '.' ∉ cs := by
  obtain ⟨a, b, rfl⟩ := ticked
  simp [plain.dots]

theorem trimStart_dotted (path rest : List Char) :
    Text.trimStart (path ++ '.' :: rest) = Text.trimStart path ++ '.' :: rest := by
  rw [Text.trimStart, Text.trimStart, List.dropWhile_append]
  split
  · rename_i blank
    rw [List.isEmpty_iff.mp blank, List.dropWhile_cons_of_neg (by decide), List.nil_append]
  · rfl

/-- White space is only trimmed in front of the first dot. -/
theorem trim_dotted {second : List Char} (settled : Text.trim second = second) (path : List Char) :
    Text.trim (path ++ '.' :: second) = Text.trimStart path ++ '.' :: second := by
  have last : ∀ c ∈ (Text.trimStart path ++ '.' :: second).reverse.head?, Text.isSpace c = false := by
    intro c ends
    rw [List.head?_reverse, List.getLast?_append, List.getLast?_cons] at ends
    cases ending : second.getLast? with
    | none =>
      rw [ending] at ends
      obtain rfl : '.' = c := by simpa using ends
      decide
    | some d =>
      rw [ending] at ends
      obtain rfl : d = c := by simpa using ends
      exact (Text.trim_eq_self_iff.mp settled).2 d ending
  have back : (Text.trimStart path ++ '.' :: second).reverse.dropWhile Text.isSpace =
      (Text.trimStart path ++ '.' :: second).reverse :=
    Text.dropWhile_append_rest (List.forall_mem_nil _) last
  rw [Text.trim, trimStart_dotted, Text.trimEnd, back, List.reverse_reverse]

theorem lastTwo?_of_dotted {table field : String} (dotted : Dotted text table field) :
    lastTwo? text = some (table, field) := by
  obtain ⟨⟨plain, plain'⟩, front, first, second, path, ticked, ticked', whole⟩ := dotted
  -- What is left of the names in front ends in a dot, or there are none.
  obtain ⟨kept, trimmed, ends⟩ : ∃ kept, Text.trimStart (front ++ first) = kept ++ first ∧
      (kept = [] ∨ ∃ path, kept = path ++ ['.']) := by
    rcases path with rfl | ⟨path, rfl⟩
    · have start := (Text.trim_eq_self_iff.mp (trim_ticked plain ticked)).1
      exact ⟨[], Text.dropWhile_append_rest (List.forall_mem_nil _) start, .inl rfl⟩
    · refine ⟨Text.trimStart path ++ ['.'], ?_, .inr ⟨_, rfl⟩⟩
      rw [List.append_assoc, List.singleton_append, trimStart_dotted, List.append_assoc,
        List.singleton_append]
  have cut : ∀ front back : List Char,
      (front ++ '.' :: back).splitOn '.' = front.splitOn '.' ++ back.splitOn '.' :=
    fun front back => List.splitOnP_append_cons front back rfl
  have one : first.splitOn '.' = [first] := List.splitOn_eq_singleton (undotted_ticked plain ticked)
  have two : second.splitOn '.' = [second] := List.splitOn_eq_singleton (undotted_ticked plain' ticked')
  have pieces : ∃ others, (kept ++ first).splitOn '.' = others ++ [first] := by
    rcases ends with rfl | ⟨path, rfl⟩
    · exact ⟨[], one⟩
    · rw [List.append_assoc, List.singleton_append, cut, one]
      exact ⟨_, rfl⟩
  obtain ⟨others, pieces⟩ := pieces
  rw [lastTwo?, whole, trim_dotted (trim_ticked plain' ticked'), trimmed, cut, pieces, two,
    List.reverse_append, List.reverse_append]
  simp only [List.reverse_singleton, List.singleton_append, bare_ticked plain ticked,
    bare_ticked plain' ticked']

end LakeSchema.Document
