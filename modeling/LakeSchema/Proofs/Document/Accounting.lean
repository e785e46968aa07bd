import LakeSchema.Proofs.Document.NameIndex
import LakeSchema.Proofs.Document.Parameters

/-!
# Nothing is dropped in silence

What a document says in a form of its own is carried over when it is normalised, or reported. This holds
exactly for documents whose timestamps are texts and whose fields do not give a second parameter text
that would get lost beside the first (`normalise_accounted_iff`).
-/

namespace LakeSchema.Document

open Json (Members)

variable {now : Timestamp} {members after table field changed entry : Members} {supply : IdSupply}
  {warned : List Warning} {label text : String} {i j : Nat}

/-! ### Values and warnings -/

/-- A timestamp is a text and stands for the same time afterwards, or is reported as unreadable. -/
def TimeAccounted (label name : String) (value : Json) (after : Members) (warned : List Warning) :
    Prop :=
  ∃ text, value = .string text ∧
    ((∃ t, Timestamp.read? text = some t ∧ after.get? name = some (.time t)) ∨
      .timestampReplaced label name text ∈ warned)

/-- The timestamps that are given are accounted for. -/
def TimesAccounted (label : String) (members after : Members) (warned : List Warning) : Prop :=
  ∀ name ∈ ["created_at", "updated_at"], ∀ value, members.get? name = some value → value ≠ .null →
    TimeAccounted label name value after warned

/-- What warnings call an entry of a list. -/
def entryLabel (entry : Members) : String :=
  ((entry.get? "id").bind Json.asString?).getD "?"

/-- The parameter texts of a field: its own one, and that inside of its type. -/
def parameterTexts (field : Members) : List String :=
  (parameterText? field).toList ++ (innerText? field).toList

/-- Each parameter text is structured afterwards, or is reported as one that does not fit. -/
def ParametersAccounted (table field after : Members) (warned : List Warning) : Prop :=
  ∀ text ∈ parameterTexts field, Text.isBlank text = false →
    (∃ parameters, TypeParameters.ofText? (keyword field) text = some parameters ∧
      after.get? "type_parameters" = some parameters.toJson) ∨
    .parametersDropped (memberText "name" table) (memberText "name" field) text (keyword field) ∈ warned

/-- The target is a field of the document whose names a dotted text ends in. -/
def Names (members : Members) (text : String) (target : Location) : Prop :=
  ∃ names, lastTwo? text = some names ∧ PointsAt members names target

/-- A foreign key text has become a reference to the field that it names, or is reported. -/
def KeyAccounted (document table field after : Members) (warned : List Warning) : Prop :=
  ∀ text, field.get? "foreign_key_reference" = some (.string text) →
    (∃ target, Names document text target ∧
      after.get? "foreign_key_reference" = some (referenceTo target)) ∨
    .keyTextDropped (memberText "name" table) (memberText "name" field) text ∈ warned

/-- All values of a document that normalising may rewrite are represented afterwards or reported. -/
structure Accounted (members after : Members) (warned : List Warning) : Prop where
  root : TimesAccounted "project" members after warned
  entries : ∀ name ∈ timestamped, ∀ i entry, listed? name i members = some entry →
    ∃ changed, listed? name i after = some changed ∧
      TimesAccounted (entryLabel changed) entry changed warned
  fields : ∀ i j table field, listed? "tables" i members = some table →
    listed? "fields" j table = some field → ∃ table' field', listed? "tables" i after = some table' ∧
      listed? "fields" j table' = some field' ∧ ParametersAccounted table field field' warned ∧
      KeyAccounted after table field field' warned

/-! ### Documents that can be accounted for -/

/-- The timestamps that are given are texts. -/
def TimesTexted (members : Members) : Prop :=
  ∀ name ∈ ["created_at", "updated_at"], ∀ value, members.get? name = some value → value ≠ .null →
    ∃ text, value = .string text

/-- A parameter text that does not fit counts for a field of the same name in a table of the same
name. -/
def ReportedTwin (members table field : Members) (text : String) : Prop :=
  TypeParameters.ofText? (keyword field) text = none ∧
    ∃ i j table' field', listed? "tables" i members = some table' ∧
      listed? "fields" j table' = some field' ∧
      memberText "name" table' = memberText "name" table ∧
      memberText "name" field' = memberText "name" field ∧ keyword field' = keyword field ∧
      countedText? field' = some text

/-- The text inside of the type of a field with a parameter text of its own says the same as that one,
or happens to be reported. -/
def InnerTold (members table field : Members) : Prop :=
  ∀ own inner, parameterText? field = some own → innerText? field = some inner →
    Text.isBlank inner = false →
    (∃ parameters, TypeParameters.ofText? (keyword field) own = some parameters ∧
      TypeParameters.ofText? (keyword field) inner = some parameters) ∨
    ReportedTwin members table field inner

/-- A document whose values can be kept or reported. -/
structure Tellable (members : Members) : Prop where
  root : TimesTexted members
  entries : ∀ name ∈ timestamped, ∀ i entry, listed? name i members = some entry → TimesTexted entry
  fields : ∀ i j table field, listed? "tables" i members = some table →
    listed? "fields" j table = some field → InnerTold members table field

/-! ### Timestamps -/

theorem timesTexted_of_accounted (accounted : TimesAccounted label members after warned) :
    TimesTexted members := fun name time value given solid => by
  obtain ⟨text, same, _⟩ := accounted name time value given solid
  exact ⟨text, same⟩

theorem timestamp_accounted {name : String} (given : members.get? name = some (.string text)) :
    TimeAccounted label name (.string text) (timestamp now label name members).1
      (timestamp now label name members).2 := by
  refine ⟨text, rfl, ?_⟩
  simp only [timestamp, given]
  cases read : Timestamp.read? text with
  | some t => exact .inl ⟨t, rfl, (Members.get?_put _ _ _ _).trans (if_pos rfl)⟩
  | none => exact .inr (List.mem_singleton_self _)

theorem TimeAccounted.mono {name : String} {value : Json} {more : List Warning} {later : Members}
    (accounted : TimeAccounted label name value after warned)
    (same : later.get? name = after.get? name) (within : warned ⊆ more) :
    TimeAccounted label name value later more := by
  obtain ⟨text, string, kept | reported⟩ := accounted
  · exact ⟨text, string, .inl (by rwa [same])⟩
  · exact ⟨text, string, .inr (within reported)⟩

theorem timestamps_accounted (texted : TimesTexted members) :
    TimesAccounted label members (timestamps now label members).1
      (timestamps now label members).2 := by
  intro name time value given solid
  obtain ⟨text, rfl⟩ := texted name time value given solid
  simp only [List.mem_cons, List.not_mem_nil, or_false] at time
  rcases time with rfl | rfl
  · exact (timestamp_accounted given).mono (get?_timestamp (by decide)) (List.subset_append_left _ _)
  · have later : (timestamp now label "created_at" members).1.get? "updated_at" = some (.string text) :=
      (get?_timestamp (by decide)).trans given
    exact (timestamp_accounted later).mono rfl (List.subset_append_right _ _)

theorem TimesAccounted.mono {more : List Warning} {later : Members}
    (accounted : TimesAccounted label members after warned)
    (same : ∀ name ∈ ["created_at", "updated_at"], later.get? name = after.get? name)
    (within : warned ⊆ more) : TimesAccounted label members later more :=
  fun name time value given solid => (accounted name time value given solid).mono (same name time) within

theorem root_accounted (texted : TimesTexted members) :
    TimesAccounted "project" members (normalised now members supply) (warnings now members supply) := by
  exact (timestamps_accounted texted).mono (fun name time => get?_normalised time) fun w root =>
    List.mem_append_left _ (List.mem_append_left _ root)

theorem entry_accounted {name : String} (listed : name ∈ timestamped)
    (given : listed? name i members = some entry) (texted : TimesTexted entry) :
    ∃ changed, listed? name i (normalised now members supply) = some changed ∧
      TimesAccounted (entryLabel changed) entry changed (warnings now members supply) := by
  obtain ⟨middle, place, same⟩ := exists_prepared listed given
  have kept : TimesTexted middle := fun other time value given solid =>
    texted other time value ((same other time).symm.trans given) solid
  have label : entryLabel (entryTimestamps now middle).1 = entryLabel middle := by
    rw [entryLabel, entryTimestamps, get?_timestamps (by decide) (by decide), entryLabel]
  refine ⟨(entryTimestamps now middle).1, by rw [listed?_normalised listed, place, Option.map_some], ?_⟩
  rw [label]
  intro other time value given solid
  refine (timestamps_accounted kept other time value ((same other time).trans given) solid).mono rfl
    fun w warned => ?_
  exact List.mem_append_right _ ((mem_listTimestamps_iff (by decide)).mpr
    ⟨name, listed, i, middle, place, warned⟩)

/-! ### Parameters -/

/-- What is said about the type of a field does not depend on its identifier. -/
theorem typeText?_assignId : typeText? (assignId members supply).1 = typeText? members := by
  rw [typeText?, get?_assignId (by decide), typeText?]

theorem keyword_assignId : keyword (assignId members supply).1 = keyword members := by
  rw [keyword, typeText?_assignId, keyword]

theorem countedText?_assignId : countedText? (assignId members supply).1 = countedText? members := by
  rw [countedText?, parameterText?, get?_assignId (by decide), innerText?, typeText?_assignId]
  rfl

theorem memberText_assignId : memberText "name" (assignId members supply).1 = memberText "name" members := by
  rw [memberText, get?_assignId (by decide), memberText]

/-- The text that counts is structured or reported. -/
theorem exists_counted (now : Timestamp) (supply : IdSupply)
    (given : listed? "tables" i members = some table)
    (inside : listed? "fields" j table = some field) (counted : countedText? field = some text) :
    ∃ table' field', listed? "tables" i (normalised now members supply) = some table' ∧
      listed? "fields" j table' = some field' ∧
      field'.get? "type_parameters" =
        (TypeParameters.ofText? (keyword field) text).map TypeParameters.toJson ∧
      (TypeParameters.ofText? (keyword field) text = none → Text.isBlank text = false →
        .parametersDropped (memberText "name" table) (memberText "name" field) text (keyword field) ∈
          warnings now members supply) := by
  obtain ⟨middle, table', place, within, warned⟩ := exists_field_normalised now supply given inside
  have counted : countedText? (assignId field middle).1 = some text :=
    countedText?_assignId.trans counted
  obtain ⟨structured, dropped⟩ := field_parameters counted
  rw [keyword_assignId] at structured dropped
  rw [memberText_assignId] at dropped
  exact ⟨table', _, place, within, structured, fun misfit solid => warned (dropped misfit solid)⟩

theorem reported_iff : .parametersDropped (memberText "name" table) (memberText "name" field) text
      (keyword field) ∈ warnings now members supply ↔
    Text.isBlank text = false ∧ ReportedTwin members table field text := by
  constructor
  · intro warned
    obtain ⟨i, j, table', field', middle, given, inside, dropped⟩ :=
      exists_field_of_mem_warnings warned fun _ _ _ => nofun
    obtain ⟨⟨counted, misfit, solid⟩, sameTable, sameField, word⟩ := misfit_of_parametersDropped dropped
    rw [keyword_assignId] at misfit word
    rw [memberText_assignId] at sameField
    exact ⟨solid, word ▸ misfit, i, j, table', field', given, inside, sameTable.symm, sameField.symm,
      word.symm, countedText?_assignId.symm.trans counted⟩
  · rintro ⟨solid, misfit, i, j, table', field', given, inside, sameTable, sameField, word, counted⟩
    obtain ⟨_, _, _, _, _, reported⟩ := exists_counted now supply given inside counted
    rw [word, sameTable, sameField] at reported
    exact reported misfit solid

theorem parameters_accounted (told : InnerTold members table field)
    (given : listed? "tables" i members = some table) (inside : listed? "fields" j table = some field)
    {table' field' : Members} (place : listed? "tables" i (normalised now members supply) = some table')
    (within : listed? "fields" j table' = some field') :
    ParametersAccounted table field field' (warnings now members supply) := by
  have counted_accounted : ∀ {text}, countedText? field = some text → Text.isBlank text = false →
      (∃ parameters, TypeParameters.ofText? (keyword field) text = some parameters ∧
        field'.get? "type_parameters" = some parameters.toJson) ∨
      .parametersDropped (memberText "name" table) (memberText "name" field) text (keyword field) ∈
        warnings now members supply := by
    intro text counted solid
    obtain ⟨_, _, samePlace, sameField, structured, dropped⟩ := exists_counted now supply given inside counted
    obtain rfl := Option.some.inj (place.symm.trans samePlace)
    obtain rfl := Option.some.inj (within.symm.trans sameField)
    cases read : TypeParameters.ofText? (keyword field) text with
    | some parameters => exact .inl ⟨parameters, rfl, by rw [structured, read, Option.map_some]⟩
    | none => exact .inr (dropped read solid)
  intro text member solid
  rcases List.mem_append.mp member with own | inner
  · have own := Option.mem_toList.mp own
    exact counted_accounted (by rw [countedText?, own]; rfl) solid
  · have inner := Option.mem_toList.mp inner
    cases own : parameterText? field with
    | none => exact counted_accounted (by rw [countedText?, own, inner]; rfl) solid
    | some other =>
      rcases told other text own inner solid with ⟨parameters, same, read⟩ | twin
      · have counted : countedText? field = some other := by rw [countedText?, own]; rfl
        obtain ⟨_, _, samePlace, sameField, structured, _⟩ := exists_counted now supply given inside counted
        obtain rfl := Option.some.inj (place.symm.trans samePlace)
        obtain rfl := Option.some.inj (within.symm.trans sameField)
        exact .inl ⟨parameters, read, by rw [structured, same, Option.map_some]⟩
      · exact .inr (reported_iff.mpr ⟨solid, twin⟩)

theorem innerTold_of_accounted (given : listed? "tables" i members = some table)
    (inside : listed? "fields" j table = some field) {table' field' : Members}
    (place : listed? "tables" i (normalised now members supply) = some table')
    (within : listed? "fields" j table' = some field')
    (accounted : ParametersAccounted table field field' (warnings now members supply)) :
    InnerTold members table field := by
  intro own inner ownGiven innerGiven solid
  have listed : inner ∈ parameterTexts field := by
    rw [parameterTexts, innerGiven]
    exact List.mem_append_right _ (List.mem_singleton_self _)
  rcases accounted inner listed solid with ⟨parameters, read, written⟩ | reported
  · have counted : countedText? field = some own := by rw [countedText?, ownGiven]; rfl
    obtain ⟨_, _, samePlace, sameField, structured, _⟩ := exists_counted now supply given inside counted
    obtain rfl := Option.some.inj (place.symm.trans samePlace)
    obtain rfl := Option.some.inj (within.symm.trans sameField)
    obtain ⟨other, same, equal⟩ := Option.map_eq_some_iff.mp (structured.symm.trans written)
    obtain rfl := TypeParameters.eq_of_toJson (TypeParameters.faithful_of_ofText? same)
      (TypeParameters.faithful_of_ofText? read) equal
    exact .inl ⟨other, same, read⟩
  · exact .inr (reported_iff.mp reported).2

/-! ### Foreign keys -/

/-- Tables and fields keep their identifiers and names. -/
theorem exists_normalised_of_identified (now : Timestamp)
    (place : listed? "tables" i (identified (timestamps now "project" members).1 supply) = some table)
    (within : listed? "fields" j table = some field) : ∃ table' field',
      listed? "tables" i (normalised now members supply) = some table' ∧
      listed? "fields" j table' = some field' ∧ ∀ other ∈ ["id", "name"],
        table'.get? other = table.get? other ∧ field'.get? other = field.get? other := by
  refine ⟨(entryTimestamps now (Document.table (index (timestamps now "project" members).1 supply)
      table).1).1, (Document.field (index (timestamps now "project" members).1 supply)
      (memberText "name" table) field).1, ?_, ?_, ?_⟩
  · rw [listed?_tables_normalised, place, Option.map_some]
  · rw [entryTimestamps, listed?_congr (get?_timestamps (by decide) (by decide)), listed?_table, within,
      Option.map_some]
  · simp only [List.forall_mem_cons, entryTimestamps]
    refine ⟨⟨?_, ?_⟩, ⟨?_, ?_⟩, List.forall_mem_nil _⟩
    · rw [get?_timestamps (by decide) (by decide), get?_table (by decide) (by decide)]
    · rw [get?_field (by decide) (by decide) (by decide) (by decide) (by decide)]
    · rw [get?_timestamps (by decide) (by decide), get?_table (by decide) (by decide)]
    · rw [get?_field (by decide) (by decide) (by decide) (by decide) (by decide)]

/-- What a dotted text resolves to is a field that it names, also when all is done. -/
theorem names_of_resolve {target : Location}
    (resolved : resolve? (index (timestamps now "project" members).1 supply) text = some target) :
    Names (normalised now members supply) text target := by
  obtain ⟨names, split, i, j, table, field, place, ⟨tableId, name, named, ofTable⟩, within,
    ⟨fieldId, own, owned, ofField⟩⟩ := pointsAt_of_resolve resolved
  obtain ⟨table', field', place', within', same⟩ := exists_normalised_of_identified now place within
  exact ⟨names, split, i, j, table', field', place',
    ⟨by rw [(same "id" (by decide)).1, tableId],
      name, by rw [(same "name" (by decide)).1, named], ofTable⟩, within',
    ⟨by rw [(same "id" (by decide)).2, fieldId],
      own, by rw [(same "name" (by decide)).2, owned], ofField⟩⟩

theorem key_accounted (given : listed? "tables" i members = some table)
    (inside : listed? "fields" j table = some field) {table' field' : Members}
    (place : listed? "tables" i (normalised now members supply) = some table')
    (within : listed? "fields" j table' = some field') :
    KeyAccounted (normalised now members supply) table field field' (warnings now members supply) := by
  intro text key
  obtain ⟨middle, _, samePlace, sameField, warned⟩ := exists_field_normalised now supply given inside
  obtain rfl := Option.some.inj (place.symm.trans samePlace)
  obtain rfl := Option.some.inj (within.symm.trans sameField)
  have kept : (assignId field middle).1.get? "foreign_key_reference" = some (.string text) := by
    rw [get?_assignId (by decide), key]
  cases resolved : resolve? (index (timestamps now "project" members).1 supply) text with
  | some target => exact .inl ⟨target, names_of_resolve resolved, (field_resolved kept resolved).1⟩
  | none =>
    refine .inr (warned ?_)
    rw [(field_unresolved kept resolved).2.2, memberText_assignId]
    exact List.mem_append_right _ (List.mem_singleton_self _)

/-! ### Documents -/

theorem accounted_iff : Accounted members (normalised now members supply)
    (warnings now members supply) ↔ Tellable members := by
  constructor
  · intro accounted
    refine ⟨timesTexted_of_accounted accounted.root, fun name listed i entry given => ?_,
      fun i j table field given inside => ?_⟩
    · obtain ⟨_, _, times⟩ := accounted.entries name listed i entry given
      exact timesTexted_of_accounted times
    · obtain ⟨_, _, place, within, parameters, _⟩ := accounted.fields i j table field given inside
      exact innerTold_of_accounted given inside place within parameters
  · intro tellable
    refine ⟨root_accounted tellable.root, fun name listed i entry given =>
      entry_accounted listed given (tellable.entries name listed i entry given),
      fun i j table field given inside => ?_⟩
    obtain ⟨_, table', place, within, _⟩ := exists_field_normalised now supply given inside
    exact ⟨table', _, place, within,
      parameters_accounted (tellable.fields i j table field given inside) given inside place within,
      key_accounted given inside place within⟩

/-- A document that is an object is normalised to an object with a list of warnings, and everything is
kept or reported exactly if its timestamps are texts and no field has a second parameter text that
differs from the one that counts. -/
theorem normalise_accounted_iff (now : Timestamp) (members : Members) (supply : IdSupply) :
    ∃ after warned rest, normalise now (.object members) supply = (.object after, warned, rest) ∧
      (Accounted members after warned ↔ Tellable members) := by
  obtain ⟨rest, done⟩ := normalise_object now members supply
  exact ⟨_, _, rest, done, accounted_iff⟩

/-- A document with one table of orders, whose time cannot be read, and one field in it. -/
def shop (field : Members) : Members :=
  [("tables", .array [.object [("created_at", .string "last year"), ("fields", .array [.object field]),
    ("id", .string "T"), ("name", .string "orders")]])]

/-- A field with its type in one text. -/
def total : Members :=
  [("data_type", .string "DECIMAL(10,2)"), ("id", .string "F"), ("name", .string "total")]

theorem shop_accounted : ∃ after warned rest,
    normalise Project.newYear (.object (shop total)) ⟨0⟩ = (.object after, warned, rest) ∧
      Accounted (shop total) after warned := by
  obtain ⟨after, warned, rest, done, accounted⟩ :=
    normalise_accounted_iff Project.newYear (shop total) ⟨0⟩
  refine ⟨after, warned, rest, done, accounted.mpr ⟨?_, ?_, ?_⟩⟩
  · intro name time value given
    simp only [List.mem_cons, List.not_mem_nil, or_false] at time
    rcases time with rfl | rfl <;> cases given
  · intro name listed i entry given other time value found _
    simp only [timestamped, List.mem_cons, List.not_mem_nil, or_false] at listed time
    rcases listed with rfl | rfl | rfl | rfl | rfl <;> rcases i with _ | i <;> cases given
    rcases time with rfl | rfl <;> cases found
    exact ⟨_, rfl⟩
  · intro i j table field given inside own inner ownGiven
    rcases i with _ | i <;> cases given
    rcases j with _ | j <;> cases inside
    cases ownGiven

/-- A document that says by a number when it was created. -/
def epoch : Members :=
  [("created_at", .ofNat 1704103200)]

/-- A field with a second text beside the one in its type. -/
def rescaled : Members :=
  total ++ [("type_parameters", .string "5")]

/-- The number is replaced without a warning, and the text inside of the type is lost beside the other
one. -/
theorem epoch_rescaled_not_accounted :
    (∃ after rest, normalise Project.newYear (.object epoch) ⟨0⟩ = (.object after, [], rest) ∧
      ¬ Accounted epoch after []) ∧
    ∃ after warned rest,
      normalise Project.newYear (.object (shop rescaled)) ⟨0⟩ = (.object after, warned, rest) ∧
      ¬ Accounted (shop rescaled) after warned := by
  refine ⟨⟨_, _, rfl, fun accounted => ?_⟩, ?_⟩
  · obtain ⟨text, same, _⟩ := accounted.root "created_at" List.mem_cons_self _ rfl nofun
    cases same
  · obtain ⟨rest, done⟩ := normalise_object Project.newYear (shop rescaled) ⟨0⟩
    refine ⟨_, _, rest, done, fun accounted => ?_⟩
    have told := (accounted_iff.mp accounted).fields 0 0 _ rescaled rfl rfl
    have word : keyword rescaled = "DECIMAL" := by decide
    have own : TypeParameters.ofText? "DECIMAL" "5" = some (.decimal 5 0) := by decide
    have inner : TypeParameters.ofText? "DECIMAL" "10,2" = some (.decimal 10 2) := by decide
    rcases told "5" "10,2" (by decide) (by decide) (by decide) with ⟨p, first, second⟩ | ⟨misfit, _⟩
    · rw [word, own] at first
      rw [word, inner, ← first] at second
      exact absurd second (by decide)
    · rw [word, inner] at misfit
      contradiction

end LakeSchema.Document
