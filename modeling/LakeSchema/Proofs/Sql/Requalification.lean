import LakeSchema.Proofs.Sql.Layout

/-!
# Qualification repeated

A qualified query is read once more by the same scan. What it finds are the references that stood
there before, where those to project tables are now qualified names together with the letters that
stand directly behind them (`Pieces.exists_reread`). So a second qualification changes something only
where such a name means a table that is called otherwise (`qualify_qualify_eq_iff`).
-/

namespace LakeSchema.Query

open Sql

variable {p : Project} {t u : Table} {target : Target} {sql name : String} {c : Char}
  {cs rest reference lead : List Char} {opens : Bool} {segs others : List Segment}

/-! ### Qualified names read back -/

/-- What a name in quoted form goes on with in front of a text: nothing, if a backtick closes it. -/
def carried (name : String) (rest : List Char) : List Char :=
  if Simple name then rest.takeWhile isQueryNamePart else []

theorem isQueryNamePart_of_carried (name : String) (rest : List Char) :
    ∀ c ∈ carried name rest, isQueryNamePart c = true := by
  rw [carried]
  split
  · exact fun c => List.mem_takeWhile_imp
  · exact List.forall_mem_nil _

/-- A name in quoted form is read together with what it goes on with. -/
theorem exists_carried (readable : Readable name) (rest : List Char) :
    ∃ after, rest = carried name rest ++ after ∧ (carried name rest = [] ∨ Stops after) ∧
      IsName ((quoteIdentifier name).toList ++ carried name rest) ∧
      Ends ((quoteIdentifier name).toList ++ carried name rest) after ∧
      unquoted ((quoteIdentifier name).toList ++ carried name rest) =
        name ++ String.ofList (carried name rest) := by
  have parts := isQueryNamePart_of_carried name rest
  by_cases simple : Simple name
  · have clear : backtick ∉ name.toList ++ carried name rest := by
      rw [List.mem_append, not_or]
      exact ⟨readable.clear, fun member => (not_dot_of_isQueryNamePart (parts _ member)).2 rfl⟩
    have all : carried name rest = rest.takeWhile isQueryNamePart := if_pos simple
    have stops := Text.stops_dropWhile isQueryNamePart rest
    rw [simple.quoteIdentifier]
    refine ⟨rest.dropWhile isQueryNamePart, ?_, .inr stops, isName_append simple.1 parts,
      .inr stops, ?_⟩
    · rw [all, List.takeWhile_append_dropWhile]
    · rw [unquoted_clear clear (by simp [readable.some]), String.ofList_append, String.ofList_toList]
  · have none : carried name rest = [] := if_neg simple
    have quoted := readable.quoteIdentifier_toList.resolve_left fun plain => simple plain.1
    rw [none, List.append_nil]
    refine ⟨rest, rfl, .inl rfl, readable.isName, .inl ?_, ?_⟩
    · rw [quoted]
      exact List.getLast?_concat
    · rw [readable.unquoted]
      simp

section

variable (catalog : Readable target.catalog) (schema : Readable target.schema)

include catalog schema

theorem exists_reference?_qualified (readable : Readable name) (rest : List Char) :
    ∃ after, rest = carried name rest ++ after ∧ (carried name rest = [] ∨ Stops after) ∧
      reference? ((target.qualified name).toList ++ rest) =
        some ((target.qualified name).toList ++ carried name rest, after) ∧
      parts (String.ofList ((target.qualified name).toList ++ carried name rest)) =
        [target.catalog, target.schema, name ++ String.ofList (carried name rest)] := by
  obtain ⟨after, split, stops, isName, ends, same⟩ := exists_carried readable rest
  generalize run : carried name rest = more at *
  have whole : (target.qualified name).toList ++ more =
      dotted [(quoteIdentifier target.catalog).toList, (quoteIdentifier target.schema).toList,
        (quoteIdentifier name).toList ++ more] := by
    rw [Target.qualified, toList_quoteQualified]
    simp
  have each : ∀ written ∈ [(quoteIdentifier target.catalog).toList,
      (quoteIdentifier target.schema).toList, (quoteIdentifier name).toList ++ more],
      IsName written := by
    simp [catalog.isName, schema.isName, isName]
  refine ⟨after, split, stops, reference?_eq_some_iff.mpr ⟨_, List.cons_ne_nil _ _,
    ⟨each, Nat.le_refl 3, fun last final => ?_, fun fewer => absurd fewer (Nat.lt_irrefl 3)⟩, whole,
    ?_⟩, ?_⟩
  · cases final
    exact ends
  · rw [split, List.append_assoc]
  · rw [whole, parts_dotted each (List.cons_ne_nil _ _)]
    simp [catalog.unquoted, schema.unquoted, same]

theorem carried_eq_nil_of_means (readable : Readable t.name) {rest : List Char}
    (means : projectTable? p (String.ofList
      ((target.qualified t.name).toList ++ carried t.name rest)) = some t) :
    carried t.name rest = [] := by
  obtain ⟨-, -, -, -, parts⟩ := exists_reference?_qualified catalog schema readable rest
  rw [projectTable?, parts] at means
  have named : p.tableNamed? (t.name ++ String.ofList (carried t.name rest)) = some t := by
    simp only [List.reverse_cons, List.reverse_nil, List.nil_append, List.cons_append] at means
    split at means
    · exact means
    · cases means
  -- Names that are the same in any case have one length.
  have alike := sameIgnoringCase_of_tableNamed? named
  rw [Text.sameIgnoringCase, beq_iff_eq, Text.asciiLowered_eq_iff] at alike
  simpa using congrArg List.length alike

/-- A reference to a table is written as before only in qualified form: what is read there is the
whole name, as the name of a table has one length. -/
theorem qualified_append_eq_iff (readable : Readable t.name)
    (read : reference? (reference ++ rest) = some (reference, rest))
    (means : projectTable? p (String.ofList reference) = some t) (text : List Char) :
    (target.qualified t.name).toList ++ text = reference ++ rest ↔
      (target.qualified t.name).toList = reference ∧ text = rest := by
  constructor
  · intro same
    obtain ⟨after, split, -, read', -⟩ :=
      exists_reference?_qualified catalog schema readable text
    rw [same, read] at read'
    obtain ⟨whole, behind⟩ := Prod.mk.inj (Option.some.inj read')
    have none := carried_eq_nil_of_means catalog schema readable (whole ▸ means)
    rw [none, List.append_nil] at whole
    rw [none, List.nil_append] at split
    exact ⟨whole.symm, split.trans behind.symm⟩
  · rintro ⟨here, later⟩
    rw [here, later]

end

/-! ### Texts that stay as they are -/

def Segment.text : Segment → List Char
  | .other c => [c]
  | .table lead reference => lead ++ reference

theorem Pieces.text (pieces : Pieces opens cs segs) : segs.flatMap Segment.text = cs := by
  induction pieces with
  | nil => rfl
  | table clause _ ih =>
    obtain ⟨text, rfl, -, read⟩ := tableClause?_eq_some_iff.mp clause
    obtain rfl := eq_append_of_reference? read
    rw [List.flatMap_cons, ih, Segment.text, List.append_assoc]
  | other _ _ ih => rw [List.flatMap_cons, ih, Segment.text, List.singleton_append]

/-- A text stays as it is exactly if its references to project tables are their qualified names. -/
theorem Pieces.flatMap_qualified_eq_iff (catalog : Readable target.catalog)
    (schema : Readable target.schema) (readable : ∀ t ∈ p.tables, Readable t.name)
    (pieces : Pieces opens cs segs) :
    segs.flatMap (Segment.qualified p target.qualified) = cs ↔ ∀ reference ∈ mentioned segs, ∀ t,
      projectTable? p (String.ofList reference) = some t →
        (target.qualified t.name).toList = reference := by
  induction pieces with
  | nil => exact iff_of_true rfl (by simp [mentioned])
  | @table cs lead reference rest segs clause _ ih =>
    obtain ⟨text, rfl, -, read⟩ := tableClause?_eq_some_iff.mp clause
    obtain rfl := eq_append_of_reference? read
    have cons : mentioned (.table lead reference :: segs) = reference :: mentioned segs := rfl
    rw [List.flatMap_cons, Segment.qualified, List.append_assoc, List.append_cancel_left_eq, cons,
      List.forall_mem_cons, ← ih]
    cases means : projectTable? p (String.ofList reference) with
    | none => simp
    | some t =>
      have same := qualified_append_eq_iff catalog schema (readable t (projectTable?_mem means)) read
        means (segs.flatMap (Segment.qualified p target.qualified))
      simpa using same
  | @other opens c rest segs _ _ ih =>
    rw [List.flatMap_cons]
    rw [Segment.qualified, List.singleton_append, List.cons_inj_right]
    exact ih

/-! ### What is read again -/

section

variable {naming : String → String}

/-- The text of pieces with project tables in qualified form. -/
abbrev requalified (p : Project) (naming : String → String) (segs : List Segment) : List Char :=
  segs.flatMap (Segment.qualified p naming)

theorem requalified_other (c : Char) (segs : List Segment) :
    requalified p naming (.other c :: segs) = c :: requalified p naming segs :=
  rfl

theorem requalified_table (lead reference : List Char) (segs : List Segment) :
    requalified p naming (.table lead reference :: segs) =
      lead ++ (match projectTable? p (String.ofList reference) with
        | some t => (naming t.name).toList
        | none => reference) ++ requalified p naming segs :=
  rfl

theorem Pieces.exists_start (pieces : Pieces opens cs (.table lead reference :: segs)) :
    ∃ c tail more, isQueryNameStart c = true ∧ cs = c :: tail ∧ lead = c :: more := by
  obtain ⟨-, rest, rfl, ⟨word, spaces, rfl, isLead, -⟩, -⟩ := pieces_table_iff.mp pieces
  obtain ⟨c, word, rfl, start⟩ := isLead.starts
  exact ⟨c, _, _, start, rfl, rfl⟩

theorem Pieces.head?_requalified (p : Project) (naming : String → String)
    (pieces : Pieces opens cs segs) :
    (requalified p naming segs).head? = cs.head? := by
  cases pieces with
  | nil => rfl
  | table clause later =>
    obtain ⟨c, tail, more, -, rfl, rfl⟩ := (Pieces.table clause later).exists_start
    rfl
  | other _ _ => rfl

theorem Pieces.exists_of_requalified_blank {spaces text : List Char} (pieces : Pieces opens cs segs)
    (blank : ∀ c ∈ spaces, isQueryNameStart c = false)
    (same : requalified p naming segs = spaces ++ text) :
    ∃ behind opens' segs', cs = spaces ++ behind ∧ Pieces opens' behind segs' ∧
      requalified p naming segs' = text := by
  induction spaces generalizing opens cs segs with
  | nil => exact ⟨cs, opens, segs, rfl, pieces, same⟩
  | cons c spaces ih =>
    obtain ⟨here, later⟩ := List.forall_mem_cons.mp blank
    cases pieces with
    | nil => cases same
    | table clause behind =>
      obtain ⟨d, tail, more, start, -, rfl⟩ := (Pieces.table clause behind).exists_start
      cases (List.cons.inj same).1
      rw [here] at start
      cases start
    | other _ behind =>
      rw [requalified_other] at same
      obtain ⟨rfl, tail⟩ := List.cons.inj same
      obtain ⟨text', opens', segs', rfl, pieces', same'⟩ := ih behind later tail
      exact ⟨text', opens', segs', rfl, pieces', same'⟩

/-- Letters come from letters where no word may begin. -/
theorem Pieces.exists_of_requalified_word {word text : List Char} (pieces : Pieces false cs segs)
    (parts : ∀ c ∈ word, isQueryNamePart c = true)
    (same : requalified p naming segs = word ++ text) :
    ∃ behind segs', cs = word ++ behind ∧ Pieces false behind segs' ∧
      requalified p naming segs' = text := by
  induction word generalizing cs segs with
  | nil => exact ⟨cs, segs, rfl, pieces, same⟩
  | cons c word ih =>
    obtain ⟨here, later⟩ := List.forall_mem_cons.mp parts
    cases pieces with
    | nil => cases same
    | @other _ d _ _ _ behind =>
      rw [requalified_other] at same
      obtain ⟨rfl, tail⟩ := List.cons.inj same
      rw [wordEndsAt_of_part here] at behind
      obtain ⟨text', segs', rfl, pieces', same'⟩ := ih behind later tail
      exact ⟨text', segs', rfl, pieces', same'⟩

/-- Where the new text has a name, the old one has one, if a backtick at its end may close it. -/
theorem Pieces.name?_isSome (pieces : Pieces opens cs segs)
    (named : (name? (requalified p naming segs)).isSome = true) :
    (name? (cs ++ [backtick])).isSome = true := by
  rw [name?_isSome_iff] at named ⊢
  obtain ⟨c, rest, same, starts⟩ := named
  cases pieces with
  | nil => cases same
  | table clause later =>
    obtain ⟨d, tail, more, start, rfl, -⟩ := (Pieces.table clause later).exists_start
    exact ⟨d, _, rfl, .inl start⟩
  | @other _ d tail segs _ later =>
    rw [requalified_other] at same
    obtain ⟨rfl, rfl⟩ := List.cons.inj same
    refine ⟨d, tail ++ [backtick], rfl, starts.imp_right fun ⟨tick, closed, first⟩ =>
      ⟨tick, by simp, ?_⟩⟩
    have head := later.head?_requalified p naming
    cases tail with
    | nil =>
      rw [show requalified p naming segs = [] from List.head?_eq_none_iff.mp head] at closed
      cases closed
    | cons e tail => rwa [head] at first

theorem Pieces.tableClause?_requalified (later : Pieces (wordEndsAt (some c)) rest segs)
    (none : tableClause? (c :: rest ++ [backtick]) = none) :
    tableClause? (c :: requalified p naming segs) = Option.none := by
  rw [← Option.not_isSome_iff_eq_none, tableClause?_isSome_iff] at none ⊢
  rintro ⟨lead, text, same, ⟨word, spaces, rfl, isLead, some, blank⟩, named⟩
  refine none ?_
  have letters := isLead.letters
  obtain ⟨d, word, rfl, start⟩ := isLead.starts
  rw [List.append_assoc, List.cons_append] at same
  obtain ⟨rfl, tail⟩ := List.cons.inj same
  -- The word and the white space stood there before, so the clause failed at its name.
  rw [wordEndsAt_of_part (isQueryNamePart_of_start start)] at later
  obtain ⟨behind, segs', rfl, pieces, same⟩ := later.exists_of_requalified_word
    (fun e member => isQueryNamePart_of_start (letters e (List.mem_cons_of_mem c member))) tail
  obtain ⟨text', opens', segs'', rfl, pieces, rfl⟩ := pieces.exists_of_requalified_blank
    (fun e member => isQueryNameStart_of_isSpace (blank e member)) same
  exact ⟨c :: word ++ spaces, text' ++ [backtick], by simp, ⟨c :: word, spaces, rfl, isLead, some,
    blank⟩, pieces.name?_isSome named⟩

theorem Pieces.reference?_requalified (p : Project) (naming : String → String)
    (pieces : Pieces opens rest segs)
    (read : reference? (reference ++ (rest ++ [backtick])) =
      some (reference, rest ++ [backtick])) :
    reference? (reference ++ requalified p naming segs) =
      some (reference, requalified p naming segs) := by
  obtain ⟨names, nonempty, reads, rfl, -⟩ := reference?_eq_some_iff.mp read
  have head := pieces.head?_requalified p naming
  have dot : ∀ c ∈ ['.'], isQueryNameStart c = false := List.forall_mem_singleton.mpr rfl
  refine reference?_eq_some_iff.mpr ⟨names, nonempty, ⟨reads.each, reads.bound, fun name last => ?_,
    fun fewer later same => ?_⟩, rfl, rfl⟩
  · refine (reads.ends name last).imp_right fun stops c first => stops c ?_
    rw [head] at first
    rw [List.head?_append, Option.mem_def.mp first]
    rfl
  · obtain ⟨behind, opens', segs', rfl, pieces', rfl⟩ :=
      pieces.exists_of_requalified_blank dot same
    have none := reads.finished fewer (behind ++ [backtick]) rfl
    rw [← Option.not_isSome_iff_eq_none] at none ⊢
    exact fun named => none (pieces'.name?_isSome named)

def Segment.isTable : Segment → Bool
  | .other _ => false
  | .table _ _ => true

theorem Pieces.head?_of_inside (pieces : Pieces false cs segs) :
    ∀ s ∈ segs.head?, s.isTable = false := by
  cases pieces with
  | nil => exact nofun
  | other _ _ =>
    intro s first
    cases first
    rfl

theorem Pieces.takeWhile_requalified (pieces : Pieces opens cs segs)
    (alone : ∀ s ∈ segs.head?, s.isTable = false) :
    (requalified p naming segs).takeWhile isQueryNamePart = cs.takeWhile isQueryNamePart := by
  induction pieces with
  | nil => rfl
  | table _ _ => cases alone _ rfl
  | @other opens c rest segs _ later ih =>
    rw [requalified_other, List.takeWhile_cons, List.takeWhile_cons]
    split
    · rename_i part
      rw [wordEndsAt_of_part part] at later
      rw [ih later.head?_of_inside]
    · rfl

theorem Pieces.exists_behind_parts {run after : List Char}
    (pieces : Pieces false (run ++ after) segs) (parts : ∀ c ∈ run, isQueryNamePart c = true) :
    ∃ others, segs = run.map .other ++ others ∧ Pieces false after others := by
  induction run generalizing segs with
  | nil => exact ⟨segs, rfl, pieces⟩
  | cons c run ih =>
    obtain ⟨here, later⟩ := List.forall_mem_cons.mp parts
    cases pieces with
    | other _ behind =>
      rw [wordEndsAt_of_part here] at behind
      obtain ⟨others, rfl, pieces⟩ := ih behind later
      exact ⟨others, rfl, pieces⟩

theorem Pieces.exists_behind_run {run after : List Char} (pieces : Pieces true (run ++ after) segs)
    (parts : ∀ c ∈ run, isQueryNamePart c = true) (alone : ∀ s ∈ segs.head?, s.isTable = false)
    (stops : run = [] ∨ Stops after) :
    ∃ others, segs = run.map .other ++ others ∧ Pieces true after others := by
  cases run with
  | nil => exact ⟨segs, rfl, pieces⟩
  | cons c run =>
    obtain ⟨here, later⟩ := List.forall_mem_cons.mp parts
    have stops := stops.resolve_left (List.cons_ne_nil c run)
    cases pieces with
    | table _ _ => cases alone _ rfl
    | other _ behind =>
      rw [wordEndsAt_of_part here] at behind
      obtain ⟨others, rfl, pieces⟩ := behind.exists_behind_parts later
      refine ⟨others, rfl, pieces.reopen (fun d first => ?_) true⟩
      exact isQueryNameStart_of_part (stops d first)

end

/-- The qualified name of a table together with what it goes on with. -/
def readOn (target : Target) (t : Table) (back : List Segment) : String :=
  target.qualified t.name ++ String.ofList (carried t.name (back.flatMap Segment.text))

/-- The references of the requalified text, as they are read again. -/
def reread (p : Project) (target : Target) : List Segment → List (List Char)
  | [] => []
  | .other _ :: back => reread p target back
  | .table _ reference :: back =>
    (match projectTable? p (String.ofList reference) with
      | some t => (readOn target t back).toList
      | none => reference) :: reread p target back

/-- A qualified name takes the letters directly behind it, which were pieces of their own. -/
theorem Pieces.table_qualified (catalog : Readable target.catalog) (schema : Readable target.schema)
    (readable : Readable name) (isLead : IsLead lead) (pieces : Pieces true rest segs)
    (alone : ∀ s ∈ segs.head?, s.isTable = false) :
    ∃ others, Pieces true (lead ++ ((target.qualified name).toList ++ rest))
        (.table lead ((target.qualified name).toList ++ carried name rest) :: others) ∧
      mentioned others = mentioned segs := by
  obtain ⟨after, split, stops, read, -⟩ :=
    exists_reference?_qualified catalog schema readable rest
  have letters := isQueryNamePart_of_carried name rest
  generalize carried name rest = run at *
  subst split
  obtain ⟨others, rfl, behind⟩ := pieces.exists_behind_run letters alone stops
  refine ⟨others, pieces_table_iff.mpr ⟨rfl, after, by simp, isLead, ?_, behind⟩, ?_⟩
  · rwa [List.append_assoc]
  · rw [mentioned_append, mentioned_others, List.nil_append]

/-- The scan of the requalified text finds what `reread` says, by induction on the pieces. A backtick
behind the text stands for one that an inserted name brings. -/
theorem Pieces.exists_reread (catalog : Readable target.catalog) (schema : Readable target.schema)
    (readable : ∀ t ∈ p.tables, Readable t.name) (pieces : Pieces opens cs segs)
    (closed : Pieces opens (cs ++ [backtick]) (segs ++ [.other backtick]))
    (apart : segs.IsChain fun s next => s.isTable = true → next.isTable = false) :
    ∃ others, Pieces opens (requalified p target.qualified segs) others ∧
      mentioned others = reread p target segs ∧
      ((∀ s ∈ segs.head?, s.isTable = false) → ∀ s ∈ others.head?, s.isTable = false) := by
  induction segs generalizing opens cs with
  | nil => exact ⟨[], .nil, rfl, fun _ => nofun⟩
  | cons s segs ih =>
    obtain ⟨alone, later⟩ := List.isChain_cons.mp apart
    cases s with
    | other c =>
      cases pieces with
      | other _ behind =>
        cases closed with
        | other none behind' =>
          obtain ⟨others, again, same, -⟩ := ih behind behind' later
          refine ⟨.other c :: others, .other (fun opened => ?_) again, same, fun _ s first => ?_⟩
          · exact behind.tableClause?_requalified (none opened)
          · cases first
            rfl
    | table lead reference =>
      obtain ⟨rfl, rest, rfl, isLead, -, behind⟩ := pieces_table_iff.mp pieces
      obtain ⟨-, rest', split, -, read, behind'⟩ := pieces_table_iff.mp closed
      obtain rfl : rest' = rest ++ [backtick] := by simpa using split.symm
      obtain ⟨others, again, same, first⟩ := ih behind behind' later
      cases means : projectTable? p (String.ofList reference) with
      | none =>
        refine ⟨.table lead reference :: others, ?_, ?_, fun none => nomatch none _ rfl⟩
        · rw [requalified_table, means, List.append_assoc]
          exact pieces_table_iff.mpr ⟨rfl, _, rfl, isLead,
            behind.reference?_requalified p target.qualified read, again⟩
        · rw [reread, means, ← same]
          rfl
      | some t =>
        have quiet : ∀ s ∈ segs.head?, s.isTable = false := fun s here => alone s here rfl
        obtain ⟨others, table, mentions⟩ := again.table_qualified catalog schema
          (readable t (projectTable?_mem means)) isLead (first quiet)
        have run : carried t.name (requalified p target.qualified segs) = carried t.name rest := by
          rw [carried, carried, behind.takeWhile_requalified quiet]
        have on : (readOn target t segs).toList =
            (target.qualified t.name).toList ++ carried t.name rest := by
          rw [readOn, behind.text, String.toList_append, String.toList_ofList]
        rw [run, ← on] at table
        refine ⟨.table lead (readOn target t segs).toList :: others, ?_, ?_,
          fun none => nomatch none _ rfl⟩
        · rw [requalified_table, means, List.append_assoc]
          exact table
        · rw [reread, means, ← same, ← mentions]
          rfl

theorem forall_reread_iff {holds : List Char → Prop} :
    (∀ reference ∈ reread p target segs, holds reference) ↔
      ∀ front lead reference back, segs = front ++ .table lead reference :: back →
        holds (match projectTable? p (String.ofList reference) with
          | some t => (readOn target t back).toList
          | none => reference) := by
  induction segs with
  | nil => exact iff_of_true (List.forall_mem_nil _) (by simp)
  | cons s segs ih =>
    constructor
    · intro all front lead reference back split
      cases front with
      | nil =>
        cases split
        exact all _ List.mem_cons_self
      | cons s front =>
        cases split
        refine ih.mp (fun reference member => all reference ?_) front lead reference back rfl
        cases s with
        | other c => exact member
        | table _ _ => exact List.mem_cons_of_mem _ member
    · intro all reference member
      have later := ih.mpr fun front lead reference back split =>
        all (s :: front) lead reference back (congrArg (s :: ·) split)
      cases s with
      | other c => exact later reference member
      | table lead found =>
        rcases List.mem_cons.mp member with rfl | member
        · exact all [] lead found segs rfl
        · exact later reference member

/-! ### Requalification -/

/-- A backtick behind the query would close no name in it. -/
def QuotesClosed (sql : String) : Prop :=
  segments (sql.toList ++ [backtick]) = segments sql.toList ++ [.other backtick]

/-- No reference is followed by `FROM` or `JOIN` with nothing between. -/
def ReferencesApart (sql : String) : Prop :=
  (segments sql.toList).IsChain fun s next => s.isTable = true → next.isTable = false

theorem qualify_eq_self_iff (catalog : Readable target.catalog) (schema : Readable target.schema)
    (readable : ∀ t ∈ p.tables, Readable t.name) (sql : String) :
    qualify p sql target.qualified = sql ↔ ∀ reference ∈ written sql, ∀ t,
      projectTable? p reference = some t → target.qualified t.name = reference := by
  rw [qualify, ← String.toList_inj, String.toList_ofList,
    (pieces_segments sql.toList).flatMap_qualified_eq_iff catalog schema readable, written,
    List.forall_mem_map]
  refine forall₂_congr fun reference _ => forall₂_congr fun t _ => ?_
  rw [← String.toList_inj, String.toList_ofList]

theorem readable_of_tableProblem? (fine : Name.tableProblem? name = none) : Readable name := by
  obtain ⟨fine, -⟩ := Option.or_eq_none_iff.mp fine
  rw [Name.problem?] at fine
  split at fine
  · cases fine
  rename_i blank
  split at fine
  · cases fine
  refine ⟨fun empty => blank ?_, fun tick => ?_⟩
  · rw [Text.isBlank, empty]
    rfl
  · exact absurd rfl (List.find?_eq_none.mp (Option.map_eq_none_iff.mp fine) _ tick)

theorem qualify_qualify_eq_iff (named : ∀ t ∈ p.tables, Name.tableProblem? t.name = none)
    (catalog : Readable target.catalog) (schema : Readable target.schema) (sql : String) :
    (qualify p (qualify p sql target.qualified) target.qualified = qualify p sql target.qualified ↔
      ∀ reference ∈ written (qualify p sql target.qualified), ∀ t,
        projectTable? p reference = some t → target.qualified t.name = reference) ∧
    (QuotesClosed sql → ReferencesApart sql →
      (qualify p (qualify p sql target.qualified) target.qualified = qualify p sql target.qualified ↔
        ∀ front lead reference back t, segments sql.toList = front ++ .table lead reference :: back →
          projectTable? p (String.ofList reference) = some t →
            ∀ u, projectTable? p (readOn target t back) = some u →
              target.qualified u.name = readOn target t back)) := by
  have readable : ∀ t ∈ p.tables, Readable t.name := fun t member =>
    readable_of_tableProblem? (named t member)
  have stays := qualify_eq_self_iff catalog schema readable (qualify p sql target.qualified)
  refine ⟨stays, fun closed apart => ?_⟩
  obtain ⟨others, again, same, -⟩ := (pieces_segments sql.toList).exists_reread catalog schema
    readable (segments_eq_iff.mp closed) apart
  have cut : segments (qualify p sql target.qualified).toList = others := by
    rw [qualify, String.toList_ofList]
    exact segments_eq_iff.mpr again
  rw [stays, written, cut, same, List.forall_mem_map, forall_reread_iff]
  constructor
  · intro all front lead reference back t split means u other
    have here := all front lead reference back split
    rw [means] at here
    dsimp only at here
    rw [String.ofList_toList] at here
    exact here u other
  · intro all front lead reference back split u other
    cases means : projectTable? p (String.ofList reference) with
    | none =>
      rw [means] at other
      rw [means] at other
      cases other
    | some t =>
      rw [means] at other
      dsimp only at other ⊢
      rw [String.ofList_toList] at other ⊢
      exact all front lead reference back t split means u other

def lineItems : Project :=
  { Project.empty "P" "shop" "main" "sales" Project.newYear with
    tables := [.plain "L" "line" Project.newYear, .plain "I" "LineItem" Project.newYear] }

def lineTarget : Target :=
  { catalog := "main", schema := "sales", mode := .createOrReplace }

theorem lineItems_named : ∀ t ∈ lineItems.tables, Name.tableProblem? t.name = none := by
  decide +kernel

theorem lineTarget_readable : Readable lineTarget.catalog ∧ Readable lineTarget.schema :=
  ⟨⟨by decide, by decide⟩, ⟨by decide, by decide⟩⟩

/-- A name that goes on as that of no table. -/
theorem lines_settled : QuotesClosed "SELECT * FROM \x60line\x60s JOIN sales.LineItem i" ∧
    ReferencesApart "SELECT * FROM \x60line\x60s JOIN sales.LineItem i" ∧
    ∀ front lead reference back t,
      segments "SELECT * FROM \x60line\x60s JOIN sales.LineItem i".toList =
        front ++ .table lead reference :: back →
      projectTable? lineItems (String.ofList reference) = some t →
        ∀ u, projectTable? lineItems (readOn lineTarget t back) = some u →
          lineTarget.qualified u.name = readOn lineTarget t back := by
  have closed : QuotesClosed "SELECT * FROM \x60line\x60s JOIN sales.LineItem i" := by
    unfold QuotesClosed
    decide +kernel
  have apart : ReferencesApart "SELECT * FROM \x60line\x60s JOIN sales.LineItem i" := by
    unfold ReferencesApart
    decide +kernel
  exact ⟨closed, apart, ((qualify_qualify_eq_iff lineItems_named lineTarget_readable.1
    lineTarget_readable.2 _).2 closed apart).mp (by decide +kernel)⟩

/-- The name of one table that goes on as that of another. -/
theorem lineItem_requalified : (∀ t ∈ lineItems.tables, Name.tableProblem? t.name = none) ∧
    (Readable lineItems.catalogName ∧ Readable lineItems.schemaName) ∧
    (Readable lineTarget.catalog ∧ Readable lineTarget.schema) ∧
    qualify lineItems
        (qualify lineItems "SELECT * FROM \x60line\x60item" lineTarget.qualified)
        lineTarget.qualified ≠
      qualify lineItems "SELECT * FROM \x60line\x60item" lineTarget.qualified :=
  ⟨lineItems_named, lineTarget_readable, lineTarget_readable, by decide +kernel⟩

end LakeSchema.Query
