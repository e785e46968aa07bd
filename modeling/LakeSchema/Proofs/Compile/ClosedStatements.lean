import LakeSchema.Compile.Script
import LakeSchema.Proofs.Except
import LakeSchema.Proofs.Sql.Closed

/-!
# Which statements are closed

Names and literals are quoted, so the statements for tags and foreign keys are closed whatever the
project holds. Three kinds of text stand in statements as they were given: nested types and defaults
in tables, queries in plain views, and the definitions of metric views between dollar signs.
-/

namespace LakeSchema

open Sql

variable {target : Target} {p : Project} {t : Table} {f : Field} {words : String}

/-! ### Columns -/

theorem not_mem_of_toString (n : Nat) {others : List Char}
    (apart : ∀ d ∈ others, d.isDigit = false) : ∀ c ∈ (toString n).toList, c ∉ others := by
  intro c member other
  have digit : c.isDigit = true :=
    Nat.isDigit_of_mem_toDigits (b := 10) (n := n) (by decide) (by decide) (by simpa using member)
  rw [apart c other] at digit
  cases digit

theorem plain_toString (n : Nat) : Plain (toString n) :=
  plain_of_all (not_mem_of_toString n (List.all_iff_forall_prop.mp rfl))

theorem DataType.plain_keyword (dataType : DataType) : Plain dataType.keyword := by
  cases dataType <;> exact plain_words (by decide)

namespace Field

/-- The types of a column that stand as they were given. -/
def rawTypes (f : Field) : List String :=
  match f.dataType, f.typeParameters with
  | .array, some (.element type) => [nestedType type]
  | .map, some (.keyValue key value) => [nestedType key, nestedType value]
  | .struct, some (.struct members) => members.map fun m => nestedType m.dataType
  | .interval, some (.qualifier text) => [nestedType text]
  | _, _ => []

/-- The texts of a column that stand as they were given. -/
def rawTexts (f : Field) : List String :=
  f.rawTypes ++ ((nonBlank? f.defaultValue).map Text.trimmed).toList

theorem plain_sized (dataType : DataType) (n : Nat) :
    Plain (dataType.keyword ++ "(" ++ toString n ++ ")") :=
  ((dataType.plain_keyword.words (by decide)).append (plain_toString n)).words (by decide)

theorem closed_structMember {m : StructMember} (closed : Closed (nestedType m.dataType)) :
    Closed m.text :=
  ((plain_quoteIdentifier m.name).words (by decide)).closed_append_iff.mpr closed

theorem closed_columnType (raw : ∀ text ∈ f.rawTypes, Closed text) : Closed f.columnType := by
  have comma : Plain ", " := plain_words (by decide)
  have bracket : Plain ">" := plain_words (by decide)
  fun_cases columnType f <;> rename_i parameters type <;> simp only [rawTypes, type, parameters] at raw
  case case1 precision scale =>
    have number : Plain (f.dataType.keyword ++ "(" ++ toString precision.toNat) :=
      (f.dataType.plain_keyword.words (by decide)).append (plain_toString _)
    exact (((number.words (by decide)).append (plain_toString _)).words (by decide)).closed
  case case2 | case3 | case8 | case9 => exact (plain_sized f.dataType _).closed
  case case4 element =>
    have opening : Plain "ARRAY<" := plain_words (by decide)
    have element := raw _ List.mem_cons_self
    exact (opening.closed_append_iff.mpr element).append bracket.toTrailing
  case case5 key value =>
    have opening : Plain "MAP<" := plain_words (by decide)
    have key := raw _ List.mem_cons_self
    have value := raw _ (List.mem_cons_of_mem _ List.mem_cons_self)
    have both := (opening.closed_append_iff.mpr key).append (comma.append_closed (by decide) value)
    rw [← String.append_assoc] at both
    exact both.append bracket.toTrailing
  case case6 members =>
    have opening : Plain "STRUCT<" := plain_words (by decide)
    have listed : Closed (", ".intercalate (members.map StructMember.text)) := by
      refine closed_intercalate comma (by decide) fun text member => ?_
      obtain ⟨m, inside, rfl⟩ := List.mem_map.mp member
      exact closed_structMember (raw _ (List.mem_map_of_mem inside))
    exact (opening.closed_append_iff.mpr listed).append bracket.toTrailing
  case case7 text =>
    have opening : Plain "INTERVAL " := plain_words (by decide)
    exact opening.closed_append_iff.mpr (raw _ List.mem_cons_self)
  case case10 => exact f.dataType.plain_keyword.closed

theorem trailing_clause {text : Option String} (plain : Plain words) (nonempty : words ≠ "")
    (closed : ∀ t ∈ text, Closed t) : Trailing (clause words text) := by
  cases text with
  | none => exact plain_empty.toTrailing
  | some t => exact plain.append_closed nonempty (closed t rfl)

theorem trailing_literal {text : Option String} (plain : Plain words) (nonempty : words ≠ "") :
    Trailing (clause words (text.map stringLiteral)) := by
  refine trailing_clause plain nonempty fun t member => ?_
  obtain ⟨given, -, rfl⟩ := Option.map_eq_some_iff.mp member
  exact (plain_stringLiteral given).closed

/-- A column is closed if the texts are that stand in it as they were given. -/
theorem closed_columnDefinition (raw : ∀ text ∈ f.rawTexts, Closed text) :
    Closed f.columnDefinition := by
  have type := closed_columnType fun text member => raw text (List.mem_append_left _ member)
  have name : Plain (quoteIdentifier f.name ++ " ") :=
    (plain_quoteIdentifier f.name).words (by decide)
  have required : Trailing (if f.nullable then "" else " NOT NULL") := by
    split
    · exact plain_empty.toTrailing
    · exact (plain_words (by decide)).toTrailing
  have default : Trailing (clause " DEFAULT " ((nonBlank? f.defaultValue).map Text.trimmed)) :=
    trailing_clause (plain_words (by decide)) (by decide) fun text given =>
      raw text (List.mem_append_right _ (Option.mem_toList.mpr given))
  have comment : Trailing (clause " COMMENT " ((nonBlank? f.comment).map stringLiteral)) :=
    trailing_literal (plain_words (by decide)) (by decide)
  exact (((name.closed_append_iff.mpr type).append required).append default).append comment

end Field

/-! ### Statements -/

theorem CreateMode.plain_opening_table (mode : CreateMode) : Plain (mode.opening "TABLE") := by
  cases mode <;> exact plain_words (by decide)

theorem CreateMode.plain_opening_view (mode : CreateMode) : Plain (mode.opening "VIEW") := by
  cases mode <;> exact plain_words (by decide)

theorem plain_tags {tags : TagMap} {clause : String} (some : tags.clause? = some clause) :
    Plain clause := by
  unfold TagMap.clause? at some
  split at some
  · cases some
  · have entries : Plain (", ".intercalate (tags.entries.map fun entry =>
        stringLiteral entry.1 ++ " = " ++ stringLiteral entry.2)) := by
      refine plain_intercalate (plain_words (by decide)) fun text member => ?_
      obtain ⟨entry, -, rfl⟩ := List.mem_map.mp member
      exact ((plain_stringLiteral entry.1).words (by decide)).append (plain_stringLiteral entry.2)
    have opening : Plain "SET TAGS (" := plain_words (by decide)
    obtain rfl := Option.some.inj some
    exact (opening.append entries).words (by decide)

namespace Target

theorem plain_qualified (target : Target) (name : String) : Plain (target.qualified name) := by
  have dot : Plain "." := plain_words (by decide)
  rw [qualified, quoteQualified]
  refine plain_intercalate dot fun part member => ?_
  obtain ⟨name, -, rfl⟩ := List.mem_map.mp member
  exact plain_quoteIdentifier name

theorem plain_names (fields : List Field) :
    Plain (", ".intercalate (fields.map fun f => quoteIdentifier f.name)) := by
  refine plain_intercalate (plain_words (by decide)) fun text member => ?_
  obtain ⟨f, -, rfl⟩ := List.mem_map.mp member
  exact plain_quoteIdentifier f.name

theorem plain_keyConstraint {constraint : String} (some : keyConstraint? t = some constraint) :
    Plain constraint := by
  unfold keyConstraint? at some
  split at some
  · cases some
  · have opening : Plain "CONSTRAINT " := plain_words (by decide)
    obtain rfl := Option.some.inj some
    exact (((opening.append (plain_quoteIdentifier _)).words (by decide)).append
      (plain_names _)).words (by decide)

/-- The statement that creates a table is closed if the texts are that stand in its columns as they
were given. -/
theorem closed_createTable (raw : ∀ f ∈ t.fields, ∀ text ∈ f.rawTexts, Closed text) :
    Closed (target.createTable t) := by
  have opening : Plain (target.mode.opening "TABLE" ++ " " ++ target.qualified t.name ++ " (\n  ") :=
    ((target.mode.plain_opening_table.words (by decide)).append
      (target.plain_qualified t.name)).words (by decide)
  have columns : Closed (",\n  ".intercalate
      (t.fields.map Field.columnDefinition ++ (keyConstraint? t).toList)) := by
    refine closed_intercalate (plain_words (by decide)) (by decide) fun text member => ?_
    rcases List.mem_append.mp member with column | constraint
    · obtain ⟨f, inside, rfl⟩ := List.mem_map.mp column
      exact Field.closed_columnDefinition (raw f inside)
    · exact (plain_keyConstraint (Option.mem_toList.mp constraint)).closed
  have closing : Trailing "\n)" := (plain_words (by decide)).toTrailing
  have format : Trailing
      (if t.storageFormat = .delta then "" else "\nUSING " ++ t.storageFormat.name) := by
    cases t.storageFormat <;> exact (plain_words (by decide)).toTrailing
  have location : Trailing
      (Field.clause "\nLOCATION " ((nonBlank? t.storageLocation).map stringLiteral)) :=
    Field.trailing_literal (plain_words (by decide)) (by decide)
  have comment : Trailing (Field.clause "\nCOMMENT " ((nonBlank? t.comment).map stringLiteral)) :=
    Field.trailing_literal (plain_words (by decide)) (by decide)
  exact ((((opening.closed_append_iff.mpr columns).append closing).append format).append
    location).append comment

theorem closed_tableTags {sql : String} (member : sql ∈ target.tableTags t) : Closed sql := by
  have opening : Plain "ALTER TABLE " := plain_words (by decide)
  have table := (opening.append (target.plain_qualified t.name))
  rcases List.mem_append.mp member with tagged | tagged
  · obtain ⟨tags, some, rfl⟩ := Option.map_eq_some_iff.mp (Option.mem_toList.mp tagged)
    exact ((table.words (by decide)).append (plain_tags some)).closed
  · obtain ⟨f, -, tagged⟩ := List.mem_filterMap.mp tagged
    obtain ⟨tags, some, rfl⟩ := Option.map_eq_some_iff.mp tagged
    exact ((((table.words (by decide)).append (plain_quoteIdentifier f.name)).words
      (by decide)).append (plain_tags some)).closed

theorem trailing_actionClause {words : String} (plain : Plain words) (nonempty : words ≠ "")
    (action : ReferentialAction) : Trailing (actionClause words action) := by
  unfold actionClause
  split
  · exact plain_empty.toTrailing
  · have name : Plain action.name := by cases action <;> exact plain_words (by decide)
    exact plain.append_closed nonempty name.closed

theorem closed_foreignKey (target : Target) (t : Table) (f : Field) (reference : Reference)
    (keyTable : Table) (key : Field) (fallback : Option String) :
    Closed (target.foreignKey t f reference keyTable key fallback) := by
  have opening : Plain "ALTER TABLE " := plain_words (by decide)
  have onDelete : Trailing (actionClause " ON DELETE " reference.onDelete) :=
    trailing_actionClause (plain_words (by decide)) (by decide) _
  have onUpdate : Trailing (actionClause " ON UPDATE " reference.onUpdate) :=
    trailing_actionClause (plain_words (by decide)) (by decide) _
  refine ((Plain.toTrailing ?_).closed.append onDelete).append onUpdate
  exact ((((((((opening.append (target.plain_qualified _)).words (by decide)).append
    (plain_quoteIdentifier _)).words (by decide)).append (plain_quoteIdentifier _)).words
    (by decide)).append (target.plain_qualified _)).words (by decide)).append
    (plain_quoteIdentifier _) |>.words (by decide)

theorem closed_viewTags {name sql : String} {tags : TagMap} {logicalName : Option String}
    (tagged : target.viewTags? name tags logicalName = some sql) : Closed sql := by
  have opening : Plain "ALTER VIEW " := plain_words (by decide)
  obtain ⟨clause, some, rfl⟩ := Option.map_eq_some_iff.mp tagged
  exact (((opening.append (target.plain_qualified name)).words (by decide)).append
    (plain_tags some)).closed

/-- The statement that creates a plain view is closed exactly if its query is. -/
theorem closed_createView_iff {v : TraditionalView} : Closed (target.createView p v) ↔
    Closed (Query.qualify p (queryText v.query) target.qualified) := by
  have opening : Plain (target.mode.opening "VIEW" ++ " " ++ target.qualified v.name) :=
    (target.mode.plain_opening_view.words (by decide)).append (target.plain_qualified v.name)
  have comment : Plain (Field.clause "\nCOMMENT " ((nonBlank? v.description).map stringLiteral)) := by
    cases nonBlank? v.description with
    | none => exact plain_empty
    | some text =>
      have words : Plain "\nCOMMENT " := plain_words (by decide)
      exact words.append (plain_stringLiteral text)
  exact ((opening.append comment).words (by decide)).closed_append_iff

end Target

/-! ### Metric views -/

/-- A dollar body without two dollar signs in a row ends where its end is written. -/
theorem passes_body {cs : List Char} (none : Text.occursIn ['$', '$'] cs = false) :
    Passes ⟨.body, false⟩ (cs ++ ['$', '$']) .outside := by
  induction cs with
  | nil => decide
  | cons c rest ih =>
    obtain ⟨apart, later⟩ := Bool.or_eq_false_iff.mp none
    by_cases last : c = '$' ∧ rest = []
    · -- A dollar sign at the end of the body makes up the mark, one character early.
      obtain ⟨rfl, rfl⟩ := last
      decide
    · have goesOn : (c == '$' && (rest ++ ['$', '$']).head? == some '$') = false := by
        cases rest with
        | nil => simpa using last
        | cons d rest =>
          refine Bool.eq_false_iff.mpr fun both => ?_
          obtain ⟨rfl, rfl⟩ : c = '$' ∧ d = '$' := by simpa using both
          cases apart
      have stays : Place.behind scriptLexis ⟨.body, false⟩ c (rest ++ ['$', '$']) = ⟨.body, false⟩ := by
        simp only [Place.behind, goesOn]
        rfl
      exact .hidden rfl (stays.symm ▸ ih later)

theorem passes_dollars {cs : List Char} {q : Place} (body : Passes ⟨.body, false⟩ cs q) :
    Passes .outside (' ' :: '$' :: '$' :: '\n' :: cs) q := by
  have behindMark : Passes ⟨.body, true⟩ ('$' :: '\n' :: cs) q := .hidden rfl (.hidden rfl body)
  have mark : Passes .outside ('$' :: '$' :: '\n' :: cs) q := .opening (by decide) rfl behindMark
  exact .opening (by decide) rfl mark

/-- The statement that creates a metric view is closed if its definition has no two dollar signs in
a row. -/
theorem closed_createStatement {v : MetricView} {sql : String}
    (none : ∀ d, v.definition p target = .ok d →
      Text.occursIn ['$', '$'] (Yaml.document d.members).toList = false)
    (created : v.createStatement p target = .ok sql) : Closed sql := by
  obtain ⟨d, defined, done⟩ := bind_eq_ok_iff.mp created
  have none := none d defined
  obtain rfl := Except.ok.inj done
  have header : Plain (target.metricViewHeader v.name) :=
    ((target.mode.plain_opening_view.words (by decide)).append
      (target.plain_qualified v.name)).words (by decide)
  have opens : " $$\n".toList = [' ', '$', '$', '\n'] := rfl
  have closes : "$$".toList = ['$', '$'] := rfl
  rw [String.append_assoc, String.append_assoc, header.closed_append_iff, Closed,
    String.toList_append, String.toList_append, opens, closes]
  generalize (Yaml.document d.members).toList = body at none ⊢
  exact passes_dollars (passes_body none)

end LakeSchema
