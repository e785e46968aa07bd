import LakeSchema.Proofs.Compile.ClosedStatements
import LakeSchema.Proofs.Compile.Statements
import LakeSchema.Proofs.Text.Spaces

/-!
# Reading a script back

A script is cut at the semicolons that it shows. The pieces are its statements exactly if each of
them is closed (`recovers_iff`); for a compiled project this comes down to its tables, metric views
and queries (`compile_recovers_iff`). A query may end in a line comment, which then takes in the
semicolon behind it.
-/

namespace LakeSchema

open Sql

variable {p : Project} {options : CompileOptions} {cs x y rest : List Char} {s : String}
  {texts : List String}

/-- The pieces of a text between the semicolons that it shows. -/
def scriptPieces (cs : List Char) : List (List Char) :=
  ((cs.zip (shown scriptLexis cs)).splitOnP fun entry => entry.2 == ';').map (·.map Prod.fst)

/-- A script from which its statements can be read: they are the pieces up to the last semicolon,
behind which only white space is left. -/
def Statement.Recovers (statements : List Statement) : Prop :=
  (scriptPieces (Statement.script statements).toList).map Text.trim =
    statements.map (fun s => Text.trim s.sql.toList) ++ [[]]

/-! ### Pieces -/

theorem splitOnP_eq_takeWhile_cons {α : Type} (stops : α → Bool) (items : List α) :
    ∃ more, items.splitOnP stops = items.takeWhile (fun a => !stops a) :: more := by
  induction items with
  | nil => exact ⟨[], rfl⟩
  | cons a items ih =>
    obtain ⟨more, split⟩ := ih
    rw [List.splitOnP_cons_eq_if_modifyHead, split, List.takeWhile_cons]
    cases stops a
    · exact ⟨more, rfl⟩
    · exact ⟨_, rfl⟩

/-- A text with what it shows at each position. -/
def entries (cs : List Char) : List (Char × Char) :=
  cs.zip (shown scriptLexis cs)

theorem entries_fst (cs : List Char) : (entries cs).map Prod.fst = cs :=
  List.map_fst_zip (le_of_eq shownFrom_length.symm)

theorem entries_snd (cs : List Char) : (entries cs).map Prod.snd = shown scriptLexis cs :=
  List.map_snd_zip (le_of_eq shownFrom_length)

theorem eq_of_mem_entries {c d : Char} (member : (c, d) ∈ entries cs) (solid : d ≠ ' ') : c = d := by
  obtain ⟨i, bound, same⟩ := List.getElem_of_mem member
  simp only [entries, List.getElem_zip] at same
  cases same
  have text := (shown_masks scriptLexis cs).each i _ (List.getElem?_eq_getElem _) solid
  exact (List.getElem?_eq_some_iff.mp text).2

theorem entries_append (apart : Apart x y) : entries (x ++ y) =
    entries x ++ y.zip (shownFrom scriptLexis (placeAfter scriptLexis .outside x) y) := by
  rw [entries, shown, (scan_append scriptLexis_near apart _).1, List.zip_append]
  · rfl
  · exact shownFrom_length.symm

theorem apart_semicolon (x rest : List Char) : Apart x (';' :: rest) := by
  intro c _ d first pair
  rw [← Option.some.inj first] at pair
  exact absurd (mem_edges_of_pair pair).2 (by decide)

/-- The first piece of a text that begins with a closed one. -/
theorem scriptPieces_closed (closed : Passes .outside x .outside) :
    scriptPieces (x ++ ';' :: rest) = x :: scriptPieces rest := by
  have shows : shownFrom scriptLexis .outside (';' :: rest) =
      ';' :: shownFrom scriptLexis .outside rest := shownFrom_code rfl
  have quiet : ∀ entry ∈ entries x, (entry.2 == ';') = false := fun entry member =>
    beq_false_of_ne fun mark => closed.quiet (mark ▸ (List.of_mem_zip member).2)
  rw [scriptPieces, ← entries, entries_append (apart_semicolon x rest), closed.ends, shows,
    List.zip_cons_cons, List.splitOnP_append_cons_of_forall_mem quiet _ rfl, List.map_cons,
    entries_fst]
  rfl

theorem trim_append_semicolon_ne (x z : List Char) : Text.trim (x ++ ';' :: z) ≠ Text.trim x := by
  intro same
  have solid : ∀ c ∈ [';'], Text.isSpace c = false := List.forall_mem_singleton.mpr rfl
  have longer : Text.trim (x ++ [';'] ++ z) =
      Text.trimStart x ++ [';'] ++ Text.dropEndWhile Text.isSpace z := by
    rw [Text.trim, Text.trimStart, Text.dropWhile_append_word solid (List.cons_ne_nil _ _)]
    exact Text.dropEndWhile_append_word solid (List.cons_ne_nil _ _)
  have shorter := (Text.dropEndWhile_isPrefix Text.isSpace (Text.trimStart x)).length_le
  rw [List.append_assoc, List.singleton_append, same] at longer
  have lengths := congrArg List.length longer
  simp only [List.length_append, List.length_singleton] at lengths
  have trimmed : (Text.trim x).length =
      (Text.dropEndWhile Text.isSpace (Text.trimStart x)).length := rfl
  omega

/-- Of a text that is not closed, the first piece is another one. -/
theorem trim_scriptPieces_open (opened : ¬Passes .outside x .outside) (rest : List Char) :
    ∃ first more, scriptPieces (x ++ ';' :: rest) = first :: more ∧
      Text.trim first ≠ Text.trim x := by
  obtain ⟨more, split⟩ :=
    splitOnP_eq_takeWhile_cons (fun entry => entry.2 == ';') (entries (x ++ ';' :: rest))
  refine ⟨_, _, congrArg (List.map (List.map Prod.fst)) split, ?_⟩
  rw [entries_append (apart_semicolon x rest), List.takeWhile_append]
  split
  case isTrue whole =>
    -- Nothing is cut off in the text, so the scan does not end in the code.
    have all : (entries x).takeWhile (fun entry => !(entry.2 == ';')) = entries x :=
      (List.takeWhile_prefix _).eq_of_length whole
    have quiet : ';' ∉ shown scriptLexis x := by
      rw [← entries_snd, ← all, List.mem_map]
      rintro ⟨entry, member, mark⟩
      have other := List.mem_takeWhile_imp member
      simp [mark] at other
    have outside : placeAfter scriptLexis .outside x ≠ .outside := fun ends => opened ⟨quiet, ends⟩
    have hidden : (placeAfter scriptLexis .outside x).shows scriptLexis ';' rest = false := by
      simp [Place.shows, outside]
    rw [shownFrom_cons, hidden, List.zip_cons_cons, List.takeWhile_cons, List.map_append, entries_fst]
    exact trim_append_semicolon_ne x _
  case isFalse cut =>
    -- The first semicolon that the text shows ends the piece.
    obtain ⟨entry, later, rest⟩ : ∃ entry later,
        (entries x).dropWhile (fun entry => !(entry.2 == ';')) = entry :: later := by
      refine List.exists_cons_of_ne_nil fun none => cut (congrArg List.length ?_)
      have whole := List.takeWhile_append_dropWhile (p := fun entry => !(entry.2 == ';'))
        (l := entries x)
      rwa [none, List.append_nil] at whole
    have mark : entry.2 = ';' := by
      have stops := List.head?_dropWhile_not (fun entry => !(entry.2 == ';')) (entries x)
      simpa [rest] using stops
    have first : entry.1 = ';' := by
      have member : entry ∈ entries x :=
        (List.dropWhile_suffix _).subset (rest ▸ List.mem_cons_self)
      exact (eq_of_mem_entries member (by rw [mark]; decide)).trans mark
    have text : x = ((entries x).takeWhile (fun entry => !(entry.2 == ';'))).map Prod.fst ++
        ';' :: later.map Prod.fst := by
      have whole := entries_fst x
      rw [← List.takeWhile_append_dropWhile (p := fun entry => !(entry.2 == ';')) (l := entries x),
        List.map_append, rest, List.map_cons, first] at whole
      exact whole.symm
    nth_rewrite 2 [text]
    exact (trim_append_semicolon_ne _ _).symm

/-! ### Scripts -/

/-- Line breaks in front of a text matter neither to its trimmed form nor to what it shows. -/
theorem passes_lead_iff {lead : List Char} (blank : ∀ c ∈ lead, c = '\n') :
    Passes .outside (lead ++ x) .outside ↔ Passes .outside x .outside := by
  refine Passes.append_iff (passes_of_all fun c member => ?_) fun c last d _ pair => ?_
  · rw [blank c member]
    decide
  · rw [blank c (List.mem_of_getLast? last)] at pair
    exact absurd (mem_edges_of_pair pair).1 (by decide)

theorem trim_lead {lead : List Char} (blank : ∀ c ∈ lead, c = '\n') :
    Text.trim (lead ++ x) = Text.trim x := by
  have spaces : ∀ c ∈ lead, Text.isSpace c = true := fun c member => by
    rw [blank c member]
    rfl
  rw [Text.trim, Text.trimStart, List.dropWhile_append_of_pos spaces]
  rfl

/-- Behind a text and its semicolon, what comes next is read on its own. -/
theorem scriptPieces_cons_iff {lead tail : List Char} (blank : ∀ c ∈ lead, c = '\n')
    (rest : (scriptPieces tail).map Text.trim = texts.map (fun s => Text.trim s.toList) ++ [[]] ↔
      ∀ t ∈ texts, Closed t) :
    (scriptPieces (lead ++ s.toList ++ ';' :: tail)).map Text.trim =
        (s :: texts).map (fun s => Text.trim s.toList) ++ [[]] ↔
      ∀ t ∈ s :: texts, Closed t := by
  by_cases closed : Closed s
  · rw [scriptPieces_closed ((passes_lead_iff blank).mpr closed), List.map_cons, trim_lead blank,
      List.map_cons, List.cons_append, List.cons.injEq, List.forall_mem_cons, rest]
    exact and_congr_left' (by simp [closed])
  · obtain ⟨first, more, split, other⟩ :=
      trim_scriptPieces_open (mt (passes_lead_iff blank).mp closed) tail
    rw [trim_lead blank] at other
    refine iff_of_false (fun same => other ?_) fun all => closed (all s List.mem_cons_self)
    rw [split] at same
    exact (List.cons.inj same).1

theorem scriptPieces_intercalate_iff {lead : List Char} (blank : ∀ c ∈ lead, c = '\n')
    (s : String) (texts : List String) :
    (scriptPieces (lead ++ (";\n\n".intercalate (s :: texts) ++ ";\n").toList)).map Text.trim =
        (s :: texts).map (fun s => Text.trim s.toList) ++ [[]] ↔
      ∀ t ∈ s :: texts, Closed t := by
  induction texts generalizing s lead with
  | nil =>
    have last : scriptPieces ['\n'] = [['\n']] := by decide
    have mark : ";\n".toList = [';', '\n'] := rfl
    rw [String.intercalate_singleton, String.toList_append, ← List.append_assoc, mark]
    exact scriptPieces_cons_iff blank (iff_of_true (by rw [last]; rfl) nofun)
  | cons t texts ih =>
    have breaks : ∀ c ∈ ['\n', '\n'], c = '\n' := by simp
    have mark : ";\n\n".toList = ';' :: ['\n', '\n'] := rfl
    rw [String.intercalate_cons_cons, String.append_assoc, String.append_assoc, String.toList_append,
      ← List.append_assoc, String.toList_append, mark, List.cons_append]
    exact scriptPieces_cons_iff blank (ih breaks t)

/-- A script of statements can be read exactly if they are closed. -/
theorem recovers_iff {statements : List Statement} (nonempty : ∀ s ∈ statements, s.sql ≠ "") :
    Statement.Recovers statements ↔ ∀ s ∈ statements, Closed s.sql := by
  cases statements with
  | nil => exact iff_of_true rfl nofun
  | cons s statements =>
    have some : (";\n\n".intercalate ((s :: statements).map (·.sql))).isEmpty = false := by
      have first := nonempty s List.mem_cons_self
      cases statements with
      | nil => simpa [String.intercalate_singleton] using first
      | cons t statements => simp [String.intercalate_cons_cons]
    have none : ∀ c ∈ ([] : List Char), c = '\n' := nofun
    have read := scriptPieces_intercalate_iff none s.sql (statements.map (·.sql))
    rw [← List.map_cons (f := fun s : Statement => s.sql), List.map_map, List.forall_mem_map] at read
    rw [Statement.Recovers, Statement.script]
    simp only [some]
    exact read

/-! ### Compiled projects -/

namespace Project

variable {target : Target} {t : Table} {statements : List Statement} {holds : String → Prop}

theorem forall_sql_tableStatements (tags : ∀ sql ∈ target.tableTags t, holds sql) :
    (∀ s ∈ tableStatements options target t, holds s.sql) ↔ holds (target.createTable t) := by
  rw [tableStatements, List.forall_mem_cons]
  refine and_iff_left fun s member => ?_
  split at member
  · obtain ⟨sql, listed, rfl⟩ := List.mem_map.mp member
    exact tags sql listed
  · cases member

theorem forall_sql_keyStatements
    (keys : ∀ f reference keyTable key name,
      holds (target.foreignKey t f reference keyTable key name)) :
    ∀ s ∈ p.keyStatements target t, holds s.sql := by
  intro s member
  obtain ⟨f, -, found⟩ := List.mem_filterMap.mp member
  obtain ⟨-, -, reference, keyTable, key, name, -, -, -, sql⟩ := keyStatement?_constrains found
  exact sql ▸ keys f reference keyTable key name

theorem forall_sql_viewTagStatements {kind : EntityKind} {id name : String} {tags : TagMap}
    {logicalName : Option String}
    (each : ∀ sql, target.viewTags? name tags logicalName = some sql → holds sql) :
    ∀ s ∈ viewTagStatements options target kind id name tags logicalName, holds s.sql := by
  intro s member
  unfold viewTagStatements at member
  split at member
  · obtain ⟨sql, tagged, rfl⟩ := List.mem_map.mp member
    exact each sql (Option.mem_toList.mp tagged)
  · cases member

theorem forall_sql_metricViewStatements {v : MetricView}
    (tags : ∀ sql, target.viewTags? v.name v.tags none = some sql → holds sql) :
    (∀ made, p.metricViewStatements options target v = .ok made → ∀ s ∈ made, holds s.sql) ↔
      ∀ sql, v.createStatement p target = .ok sql → holds sql := by
  constructor
  · intro all sql written
    have created : p.metricViewStatements options target v =
        .ok (⟨v.id, .metricView, .createMetricView, target.qualified v.name, sql⟩ ::
          viewTagStatements options target .metricView v.id v.name v.tags none) := by
      rw [metricViewStatements, written]
      rfl
    exact all _ created _ List.mem_cons_self
  · intro each made created
    obtain ⟨sql, written, done⟩ := bind_eq_ok_iff.mp created
    obtain rfl := Except.ok.inj done
    exact List.forall_mem_cons.mpr ⟨each sql written, forall_sql_viewTagStatements tags⟩

theorem forall_mem_flatten_iff {α β ε : Type} {f : α → Except ε (List β)} {items : List α}
    {results : List (List β)} {holds : β → Prop}
    (made : List.Forall₂ (fun a b => f a = .ok b) items results) :
    (∀ b ∈ results.flatten, holds b) ↔ ∀ a ∈ items, ∀ bs, f a = .ok bs → ∀ b ∈ bs, holds b := by
  induction made with
  | nil => simp
  | cons first _ ih =>
    simp only [List.flatten_cons, List.forall_mem_append, List.forall_mem_cons, ih, first,
      Except.ok.injEq, forall_eq']

/-- What holds of all tags and foreign keys holds of a script if it holds of the creations. -/
theorem forall_sql_iff (holds : String → Prop) (compiled : p.compile options = .ok statements)
    (tableTags : ∀ t, ∀ sql ∈ (p.target options).tableTags t, holds sql)
    (keys : ∀ t f reference keyTable key name,
      holds ((p.target options).foreignKey t f reference keyTable key name))
    (viewTags : ∀ name tags logicalName sql,
      (p.target options).viewTags? name tags logicalName = some sql → holds sql) :
    (∀ s ∈ statements, holds s.sql) ↔
      (∀ t ∈ p.tables, holds ((p.target options).createTable t)) ∧
      (∀ v ∈ p.metricViews, ∀ sql, v.createStatement p (p.target options) = .ok sql → holds sql) ∧
      ∀ v ∈ p.traditionalViews, holds ((p.target options).createView p v) := by
  obtain ⟨none, tables, views, ordered, created, rfl⟩ := compile_eq_ok_iff.mp compiled
  obtain ⟨perm, -⟩ := orderedTables_spec (problems_eq_nil_iff.mp none) ordered
  rw [Statement.forall_mem_numbered_iff (P := fun s => holds s.sql)]
  simp only [List.forall_mem_append, List.forall_mem_flatMap, and_assoc, perm.mem_iff,
    forall_mem_flatten_iff created, forall_sql_tableStatements (tableTags _),
    forall_sql_metricViewStatements (viewTags _ _ _)]
  refine and_congr_right fun _ => ?_
  rw [and_iff_right fun t _ => forall_sql_keyStatements (keys t)]
  refine and_congr_right fun _ => forall₂_congr fun v _ => ?_
  rw [traditionalViewStatements, List.forall_mem_cons]
  exact and_iff_left (forall_sql_viewTagStatements (viewTags _ _ _))

/-- No statement of a script is empty. -/
theorem sql_ne_empty (compiled : p.compile options = .ok statements) :
    ∀ s ∈ statements, s.sql ≠ "" := by
  refine (forall_sql_iff (· ≠ "") compiled (fun t sql member => ?_) (fun _ _ _ _ _ _ => ?_)
    fun name tags logicalName sql tagged => ?_).mpr
    ⟨fun t _ => ?_, fun v _ sql written => ?_, fun v _ => ?_⟩
  · rcases List.mem_append.mp member with tagged | tagged
    · obtain ⟨tags, -, rfl⟩ := Option.map_eq_some_iff.mp (Option.mem_toList.mp tagged)
      simp only [ne_eq, String.append_eq_empty_iff, String.reduceEq, false_and, not_false_eq_true]
    · obtain ⟨f, -, tagged⟩ := List.mem_filterMap.mp tagged
      obtain ⟨tags, -, rfl⟩ := Option.map_eq_some_iff.mp tagged
      simp only [ne_eq, String.append_eq_empty_iff, String.reduceEq, false_and, not_false_eq_true]
  · intro empty
    unfold Target.foreignKey at empty
    have front := (String.append_eq_empty_iff.mp (String.append_eq_empty_iff.mp empty).1).1
    exact absurd (String.append_eq_empty_iff.mp front).2 (by decide)
  · obtain ⟨tags, -, rfl⟩ := Option.map_eq_some_iff.mp tagged
    simp only [ne_eq, String.append_eq_empty_iff, String.reduceEq, false_and, not_false_eq_true]
  · simp [Target.createTable]
  · obtain ⟨d, -, done⟩ := bind_eq_ok_iff.mp written
    obtain rfl := Except.ok.inj done
    simp
  · simp [Target.createView]

theorem forall_closed_iff (compiled : p.compile options = .ok statements) :
    (∀ s ∈ statements, Closed s.sql) ↔
      (∀ t ∈ p.tables, Closed ((p.target options).createTable t)) ∧
      (∀ v ∈ p.metricViews, ∀ sql, v.createStatement p (p.target options) = .ok sql → Closed sql) ∧
      ∀ v ∈ p.traditionalViews, Closed ((p.target options).createView p v) :=
  forall_sql_iff Closed compiled (fun _ _ => Target.closed_tableTags)
    (fun _ _ _ _ _ _ => Target.closed_foreignKey _ _ _ _ _ _ _)
    fun _ _ _ _ => Target.closed_viewTags

/-- The statements of a compiled project can be read from its script exactly if its tables, its
metric views and the queries of its plain views are closed. -/
theorem compile_recovers_iff (compiled : p.compile options = .ok statements) :
    Statement.Recovers statements ↔
      (∀ t ∈ p.tables, Closed ((p.target options).createTable t)) ∧
      (∀ v ∈ p.metricViews, ∀ sql, v.createStatement p (p.target options) = .ok sql → Closed sql) ∧
      ∀ v ∈ p.traditionalViews,
        Closed (Query.qualify p (Target.queryText v.query) (p.target options).qualified) := by
  simp only [← Target.closed_createView_iff]
  rw [recovers_iff (sql_ne_empty compiled)]
  exact forall_closed_iff compiled

theorem salesViews_recovers : ∃ statements,
    salesViews.compile .standard = .ok statements ∧ Statement.Recovers statements := by
  obtain ⟨statements, compiled⟩ := salesViews_compilable.compiles .standard
  refine ⟨statements, compiled, (compile_recovers_iff compiled).mpr
    ⟨fun t member => ?_, fun v member sql => ?_, by decide +kernel⟩⟩
  · have raw : ∀ t ∈ salesViews.tables, ∀ f ∈ t.fields, ∀ text ∈ f.rawTexts, Closed text := by decide
    exact Target.closed_createTable (raw t member)
  · obtain rfl := List.mem_singleton.mp member
    refine closed_createStatement fun d defined => ?_
    obtain rfl := Except.ok.inj defined
    decide +kernel

/-- A plain view whose query ends in a comment. -/
def commentedView : Project :=
  { Project.empty "P" "shop" "main" "sales" newYear with
    tables := [{ Table.plain "T" "orders" newYear with fields := [.plain "F" "id" .int] }]
    traditionalViews :=
      [.plain "W" "all_orders" "SELECT id FROM orders -- all orders" newYear] }

/-- The comment takes in the semicolon that is to end the statement. -/
theorem commentedView_not_recovers : ∃ statements,
    commentedView.compile .standard = .ok statements ∧ ¬Statement.Recovers statements := by
  have compilable : commentedView.Compilable := problems_eq_nil_iff.mp (by decide)
  obtain ⟨statements, compiled⟩ := compilable.compiles .standard
  refine ⟨statements, compiled, fun recovers => ?_⟩
  have closed := (forall_closed_iff compiled).mp ((recovers_iff (sql_ne_empty compiled)).mp recovers)
  exact absurd (closed.2.2 _ (List.mem_singleton.mpr rfl)) (by decide +kernel)

end Project
end LakeSchema
