import LakeSchema.Proofs.Sql.Identifier
import LakeSchema.Proofs.Sql.ViewQuery

/-!
# Table references of a query

What the scan of a query reads as the name of a table: names between backticks or without, up to
three of them with dots between, behind `FROM` or `JOIN`. `Pieces` is the scan as a relation on the
text that is left, without its rounds (`segments_eq_iff`).
-/

namespace LakeSchema.Query

open Sql

variable {c : Char} {cs rest text name found lead reference : List Char} {names : List (List Char)}
  {more : Nat} {opens : Bool} {segs : List Segment}

/-! ### Characters of names -/

theorem isQueryNameStart_backtick : isQueryNameStart backtick = false := by decide

theorem isQueryNamePart_backtick : isQueryNamePart backtick = false := by decide

theorem parts_of_start (start : isQueryNameStart c = true)
    (parts : ∀ d ∈ rest, isQueryNamePart d = true) : ∀ d ∈ c :: rest, isQueryNamePart d = true :=
  List.forall_mem_cons.mpr ⟨isQueryNamePart_of_start start, parts⟩

theorem isSpace_of_isQueryNamePart (part : isQueryNamePart c = true) : Text.isSpace c = false :=
  Text.isSpace_of_isWordChar (isWordChar_of_isQueryNamePart part)

theorem not_dot_of_isQueryNamePart (part : isQueryNamePart c = true) : c ≠ '.' ∧ c ≠ backtick := by
  constructor <;> (rintro rfl; revert part; decide)

theorem wordEndsAt_of_part (part : isQueryNamePart c = true) : wordEndsAt (some c) = false := by
  simp [wordEndsAt, isWordChar_of_isQueryNamePart part]

theorem isSpace_backtick : Text.isSpace backtick = false := by decide

/-! ### Names -/

/-- A name as a query writes it. -/
inductive IsName : List Char → Prop where
  | plain {c : Char} {rest : List Char} (start : isQueryNameStart c = true)
      (parts : ∀ d ∈ rest, isQueryNamePart d = true) : IsName (c :: rest)
  | quoted {inner : List Char} (some : inner ≠ []) (clear : backtick ∉ inner) :
      IsName (backtick :: inner ++ [backtick])

/-- No further character of a name follows. -/
def Stops (rest : List Char) : Prop :=
  ∀ c ∈ rest.head?, isQueryNamePart c = false

/-- A name does not go on: it is closed, or no further character of a name follows. -/
def Ends (name rest : List Char) : Prop :=
  name.getLast? = some backtick ∨ Stops rest

theorem getLast?_ne_backtick (parts : ∀ d ∈ cs, isQueryNamePart d = true) :
    cs.getLast? ≠ some backtick := fun last => by
  have part := parts _ (List.mem_of_getLast? last)
  rw [isQueryNamePart_backtick] at part
  cases part

theorem name?_quoted_eq_some_iff : name? (backtick :: cs) = some (name, rest) ↔
    ∃ inner, inner ≠ [] ∧ backtick ∉ inner ∧ name = backtick :: inner ++ [backtick] ∧
      cs = inner ++ backtick :: rest := by
  rw [name?, if_pos (beq_self_eq_true backtick)]
  constructor
  · intro read
    dsimp only at read
    split at read
    · rename_i close after tail
      split at read
      · cases read
      · rename_i nonempty
        cases read
        have same := Text.stops_dropWhile (· != backtick) cs close (by rw [tail]; rfl)
        obtain rfl : close = backtick := by simpa using same
        have clear : backtick ∉ cs.takeWhile (· != backtick) := fun member => by
          simpa using List.mem_takeWhile_imp member
        refine ⟨_, fun empty => nonempty (List.isEmpty_iff.mpr empty), clear, rfl, ?_⟩
        rw [← tail, List.takeWhile_append_dropWhile]
    · cases read
  · rintro ⟨inner, nonempty, clear, rfl, rfl⟩
    have all : ∀ c ∈ inner, (c != backtick) = true := fun c member =>
      bne_iff_ne.mpr fun same => clear (same ▸ member)
    have stops : ∀ c ∈ (backtick :: rest).head?, (c != backtick) = false := fun c first => by
      cases first
      rfl
    dsimp only
    rw [Text.takeWhile_append_word all stops, Text.dropWhile_append_rest all stops]
    dsimp only
    rw [if_neg (by simpa using nonempty)]

theorem name?_eq_some_iff : name? cs = some (name, rest) ↔
    cs = name ++ rest ∧ IsName name ∧ Ends name rest := by
  constructor
  · intro read
    cases cs with
    | nil => cases read
    | cons c cs =>
      by_cases tick : c = backtick
      · subst tick
        obtain ⟨inner, nonempty, clear, rfl, rfl⟩ := name?_quoted_eq_some_iff.mp read
        exact ⟨by simp, .quoted nonempty clear, .inl List.getLast?_concat⟩
      · rw [name?, if_neg (by simpa using tick)] at read
        split at read
        · rename_i start
          cases read
          exact ⟨by rw [List.cons_append, List.takeWhile_append_dropWhile],
            .plain start fun d member => List.mem_takeWhile_imp member,
            .inr (Text.stops_dropWhile isQueryNamePart cs)⟩
        · cases read
  · rintro ⟨rfl, isName, ends⟩
    cases isName with
    | @plain c name start parts =>
      have stops := ends.resolve_left (getLast?_ne_backtick (parts_of_start start parts))
      have plain : c ≠ backtick := fun same => by
        rw [same, isQueryNameStart_backtick] at start
        cases start
      rw [List.cons_append, name?, if_neg (by simpa using plain), if_pos start,
        Text.takeWhile_append_word parts stops, Text.dropWhile_append_rest parts stops]
    | @quoted inner nonempty clear =>
      rw [List.append_assoc, List.cons_append]
      exact name?_quoted_eq_some_iff.mpr ⟨inner, nonempty, clear, rfl, rfl⟩

theorem IsName.ne_nil (isName : IsName name) : name ≠ [] := by
  cases isName <;> exact List.cons_ne_nil _ _

/-- A name is read in front of any text with which it does not go on. -/
theorem IsName.name?_append (isName : IsName name) (ends : Ends name rest) :
    name? (name ++ rest) = some (name, rest) :=
  name?_eq_some_iff.mpr ⟨rfl, isName, ends⟩

theorem IsName.starts (isName : IsName name) :
    ∃ c rest, name = c :: rest ∧ (isQueryNameStart c = true ∨ c = backtick) := by
  cases isName with
  | plain start _ => exact ⟨_, _, rfl, .inl start⟩
  | quoted _ _ => exact ⟨_, _, rfl, .inr rfl⟩

theorem isSpace_of_starts (starts : isQueryNameStart c = true ∨ c = backtick) :
    Text.isSpace c = false := by
  rcases starts with start | rfl
  · exact isSpace_of_isQueryNamePart (isQueryNamePart_of_start start)
  · exact isSpace_backtick

theorem IsName.getLast? (isName : IsName name) :
    ∃ c, name.getLast? = some c ∧ Text.isSpace c = false := by
  cases isName with
  | @plain c rest start parts =>
    exact ⟨_, List.getLast?_eq_some_getLast (List.cons_ne_nil c rest),
      isSpace_of_isQueryNamePart (parts_of_start start parts _ (List.getLast_mem _))⟩
  | quoted _ _ => exact ⟨backtick, List.getLast?_concat, isSpace_backtick⟩

/-- Where a name can be read: at its first character, or at a backtick that is closed later. -/
theorem name?_isSome_iff : (name? cs).isSome = true ↔
    ∃ c rest, cs = c :: rest ∧ (isQueryNameStart c = true ∨
      c = backtick ∧ backtick ∈ rest ∧ rest.head? ≠ some backtick) := by
  rw [Option.isSome_iff_exists, Prod.exists]
  constructor
  · rintro ⟨name, rest, read⟩
    obtain ⟨rfl, isName, -⟩ := name?_eq_some_iff.mp read
    cases isName with
    | plain start _ => exact ⟨_, _, rfl, .inl start⟩
    | @quoted inner nonempty clear =>
      obtain ⟨c, tail, rfl⟩ := List.exists_cons_of_ne_nil nonempty
      refine ⟨_, _, rfl, .inr ⟨rfl, by simp, fun first => clear ?_⟩⟩
      rw [Option.some.inj first]
      exact List.mem_cons_self
  · rintro ⟨c, rest, rfl, start | ⟨rfl, closed, first⟩⟩
    · have plain : (c == backtick) = false := beq_false_of_ne fun same => by
        rw [same, isQueryNameStart_backtick] at start
        cases start
      rw [name?, plain, if_neg Bool.false_ne_true, if_pos start]
      exact ⟨_, _, rfl⟩
    · obtain ⟨inner, behind, rfl, clear⟩ := List.eq_append_cons_of_mem closed
      have nonempty : inner ≠ [] := fun empty => first (by rw [empty]; rfl)
      exact ⟨_, behind, name?_quoted_eq_some_iff.mpr ⟨inner, nonempty, clear, rfl, rfl⟩⟩

/-! ### References -/

/-- Names with dots between them. -/
abbrev dotted (names : List (List Char)) : List Char :=
  ['.'].intercalate names

theorem dotted_cons (name : List Char) (names : List (List Char)) :
    dotted (name :: names) = name ++ names.flatMap ('.' :: ·) := by
  induction names generalizing name with
  | nil => simp
  | cons next names ih => simp [List.intercalate_cons_cons, ih]

/-- No further name follows after a dot. -/
def Finished (rest : List Char) : Prop :=
  ∀ later, rest = '.' :: later → name? later = none

theorem ends_dot (name later : List Char) : Ends name ('.' :: later) :=
  .inr fun c first => by
    cases first
    rfl

/-- Names that are read in front of a text, at most `most` of them. -/
structure Reads (most : Nat) (names : List (List Char)) (rest : List Char) : Prop where
  each : ∀ name ∈ names, IsName name
  bound : names.length ≤ most
  ends : ∀ name ∈ names.getLast?, Ends name rest
  finished : names.length < most → Finished rest

theorem reads_cons_iff : Reads (more + 1) (name :: names) rest ↔
    IsName name ∧ (names = [] → Ends name rest) ∧ Reads more names rest := by
  constructor
  · rintro ⟨each, most, ends, finished⟩
    refine ⟨each name List.mem_cons_self, fun last => ends name (by rw [last]; rfl),
      fun n member => each n (List.mem_cons_of_mem _ member), Nat.le_of_succ_le_succ most,
      fun last member => ends last ?_, fun fewer => finished (Nat.succ_lt_succ fewer)⟩
    rw [List.getLast?_cons, Option.mem_def.mp member]
    rfl
  · rintro ⟨isName, single, each, most, ends, finished⟩
    refine ⟨List.forall_mem_cons.mpr ⟨isName, each⟩, Nat.succ_le_succ most, fun last member => ?_,
      fun fewer => finished (Nat.lt_of_succ_lt_succ fewer)⟩
    cases names with
    | nil =>
      cases member
      exact single rfl
    | cons next names => exact ends last (by rwa [List.getLast?_cons_cons] at member)

/-- The first of several names does not go on, since a dot follows. -/
theorem Reads.ends_first (reads : Reads (more + 1) (name :: names) rest) :
    Ends name (names.flatMap ('.' :: ·) ++ rest) := by
  cases names with
  | nil => exact reads.ends name rfl
  | cons next names => exact ends_dot name _

theorem dottedNames_append (reads : Reads more names rest) :
    dottedNames more (names.flatMap ('.' :: ·) ++ rest) = (names.flatMap ('.' :: ·), rest) := by
  induction names generalizing more with
  | nil =>
    fun_cases dottedNames more rest with
    | case1 more rest name later read =>
      have none := reads.finished (Nat.succ_pos more) rest rfl
      rw [read] at none
      cases none
    | case2 => rfl
    | case3 => rfl
  | cons name names ih =>
    obtain _ | more := more
    · cases reads.bound
    obtain ⟨isName, -, later⟩ := reads_cons_iff.mp reads
    rw [List.flatMap_cons, List.cons_append, List.cons_append, dottedNames, List.append_assoc,
      isName.name?_append reads.ends_first]
    dsimp only
    rw [ih later]
    rfl

theorem exists_of_dottedNames (read : dottedNames more cs = (found, rest)) :
    ∃ names : List (List Char), found = names.flatMap ('.' :: ·) ∧ cs = found ++ rest ∧
      Reads more names rest := by
  fun_induction dottedNames more cs generalizing found rest with
  | case1 more text name behind here found' last later ih =>
    cases read
    obtain ⟨names, rfl, rfl, reads⟩ := ih later
    obtain ⟨rfl, isName, ends⟩ := name?_eq_some_iff.mp here
    refine ⟨name :: names, rfl, by simp, reads_cons_iff.mpr ⟨isName, fun single => ?_, reads⟩⟩
    subst single
    exact ends
  | case2 more text none =>
    cases read
    refine ⟨[], rfl, rfl, nofun, Nat.zero_le _, nofun, fun _ later same => ?_⟩
    cases same
    exact none
  | case3 more cs other =>
    cases read
    refine ⟨[], rfl, rfl, nofun, Nat.zero_le _, nofun, fun fewer later same => ?_⟩
    obtain ⟨n, rfl⟩ := Nat.exists_eq_succ_of_ne_zero (Nat.ne_of_gt fewer)
    exact absurd same (other n later rfl)

/-- A reference is read exactly where one to three names stand that do not go on. -/
theorem reference?_eq_some_iff : reference? cs = some (reference, rest) ↔
    ∃ names, names ≠ [] ∧ Reads 3 names rest ∧ reference = dotted names ∧
      cs = reference ++ rest := by
  rw [reference?, Option.map_eq_some_iff]
  constructor
  · rintro ⟨⟨name, later⟩, first, same⟩
    obtain ⟨rfl, isName, ends⟩ := name?_eq_some_iff.mp first
    rcases read : dottedNames 2 later with ⟨found, behind⟩
    dsimp only at same
    rw [read] at same
    cases same
    obtain ⟨names, rfl, rfl, reads⟩ := exists_of_dottedNames read
    refine ⟨name :: names, List.cons_ne_nil _ _,
      reads_cons_iff.mpr ⟨isName, fun single => ?_, reads⟩,
      (dotted_cons name names).symm, (List.append_assoc ..).symm⟩
    subst single
    exact ends
  · rintro ⟨names, nonempty, reads, rfl, rfl⟩
    obtain ⟨name, names, rfl⟩ := List.exists_cons_of_ne_nil nonempty
    obtain ⟨isName, -, later⟩ := reads_cons_iff.mp reads
    refine ⟨(name, names.flatMap ('.' :: ·) ++ rest), ?_, ?_⟩
    · rw [dotted_cons, List.append_assoc]
      exact isName.name?_append reads.ends_first
    · dsimp only
      rw [dottedNames_append later, dotted_cons]

theorem reference?_isSome : (reference? cs).isSome = (name? cs).isSome := by
  rw [reference?, Option.isSome_map]

theorem head?_of_reference? (read : reference? cs = some (reference, rest)) :
    ∃ c ∈ cs.head?, isQueryNameStart c = true ∨ c = backtick := by
  obtain ⟨⟨name, later⟩, first, -⟩ := Option.map_eq_some_iff.mp read
  obtain ⟨rfl, isName, -⟩ := name?_eq_some_iff.mp first
  obtain ⟨c, tail, rfl, starts⟩ := isName.starts
  exact ⟨c, rfl, starts⟩

theorem getLast?_dotted (last : names.getLast? = some name) (nonempty : name ≠ []) :
    (dotted names).getLast? = name.getLast? := by
  obtain ⟨front, rfl⟩ := List.getLast?_eq_some_iff.mp last
  cases front with
  | nil => simp
  | cons first front =>
    rw [List.cons_append, dotted_cons, List.flatMap_append, List.flatMap_singleton,
      ← List.append_assoc, ← List.singleton_append, ← List.append_assoc,
      List.getLast?_append_of_ne_nil _ nonempty]

/-- A reference ends with a character that is no white space. -/
theorem getLast?_of_reference? (read : reference? cs = some (reference, rest)) :
    ∃ c, reference.getLast? = some c ∧ Text.isSpace c = false := by
  obtain ⟨names, nonempty, reads, rfl, -⟩ := reference?_eq_some_iff.mp read
  have isName := reads.each _ (List.getLast_mem nonempty)
  obtain ⟨c, final, solid⟩ := isName.getLast?
  have last := getLast?_dotted (List.getLast?_eq_some_getLast nonempty) isName.ne_nil
  exact ⟨c, last.trans final, solid⟩

theorem Reads.ends_dotted {most : Nat} {names : List (List Char)} (reads : Reads most names rest)
    (some : names ≠ []) : Ends (dotted names) rest := by
  have last := List.getLast?_eq_some_getLast some
  have isName := reads.each _ (List.getLast_mem some)
  rw [Ends, getLast?_dotted last isName.ne_nil]
  exact reads.ends _ last

theorem ends_of_reference? (read : reference? cs = some (reference, rest)) :
    Ends reference rest := by
  obtain ⟨names, some, reads, rfl, -⟩ := reference?_eq_some_iff.mp read
  exact reads.ends_dotted some

theorem eq_append_of_reference? (read : reference? cs = some (reference, rest)) :
    cs = reference ++ rest := by
  obtain ⟨names, -, -, -, same⟩ := reference?_eq_some_iff.mp read
  exact same

/-! ### The words that introduce a table -/

/-- `FROM` or `JOIN` in any case. -/
def IsLeadWord (word : List Char) : Prop :=
  Spells "FROM" word ∨ Spells "JOIN" word

/-- One of these words with white space behind it. -/
def IsLead (lead : List Char) : Prop :=
  ∃ word spaces, lead = word ++ spaces ∧ IsLeadWord word ∧ spaces ≠ [] ∧
    ∀ c ∈ spaces, Text.isSpace c = true

theorem IsLeadWord.length {word : List Char} (isLead : IsLeadWord word) : word.length = 4 :=
  isLead.elim (fun spells => spells.length_eq.symm) fun spells => spells.length_eq.symm

theorem IsLeadWord.letters {word : List Char} (isLead : IsLeadWord word) :
    ∀ c ∈ word, isQueryNameStart c = true := fun _ member =>
  isLead.elim (fun spells => isQueryNameStart_of_spells (by decide) spells member) fun spells =>
    isQueryNameStart_of_spells (by decide) spells member

theorem IsLeadWord.starts {word : List Char} (isLead : IsLeadWord word) :
    ∃ c rest, word = c :: rest ∧ isQueryNameStart c = true := by
  have letters := isLead.letters
  cases word with
  | nil => cases isLead.length
  | cons c rest => exact ⟨c, rest, rfl, letters c List.mem_cons_self⟩

theorem IsLeadWord.solid {word : List Char} (isLead : IsLeadWord word) :
    ∀ c ∈ word, Text.isSpace c = false := fun c member =>
  isSpace_of_starts (.inl (isLead.letters c member))

theorem leadWord?_eq_some_iff {word : List Char} :
    (keyword? "FROM".toList cs).or (keyword? "JOIN".toList cs) = some (word, rest) ↔
      cs = word ++ rest ∧ IsLeadWord word := by
  rw [Option.or_eq_some_iff, keyword?_eq_some_iff, keyword?_eq_some_iff]
  constructor
  · rintro (⟨split, spells⟩ | ⟨-, split, spells⟩)
    · exact ⟨split, .inl spells⟩
    · exact ⟨split, .inr spells⟩
  · rintro ⟨rfl, spells | spells⟩
    · exact .inl ⟨rfl, spells⟩
    · refine .inr ⟨Option.eq_none_iff_forall_not_mem.mpr fun ⟨found, behind⟩ read => ?_, rfl, spells⟩
      -- No word is both, for their first letters differ.
      obtain ⟨split, other⟩ := keyword?_eq_some_iff.mp read
      cases spells with
      | @cons _ c _ word j later =>
        cases other with
        | @cons _ d _ found f later' =>
          obtain rfl := (List.cons.inj split).1
          have f : isLetter 'F' c = true := f
          have j : isLetter 'J' c = true := j
          simp [isLetter] at f j
          exact absurd (f.symm.trans j) (by decide)

theorem tableClause?_eq_some_iff :
    tableClause? cs = some (.table lead reference, rest) ↔
      ∃ text, cs = lead ++ text ∧ IsLead lead ∧ reference? text = some (reference, rest) := by
  simp only [tableClause?, Option.bind_eq_bind, Option.bind_eq_some_iff, Prod.exists]
  constructor
  · rintro ⟨word, behind, read, some⟩
    obtain ⟨rfl, isLead⟩ := leadWord?_eq_some_iff.mp read
    split at some
    · cases some
    · rename_i spaces
      obtain ⟨⟨found, later⟩, read, same⟩ := Option.bind_eq_some_iff.mp some
      cases same
      refine ⟨behind.dropWhile Text.isSpace, ?_, ⟨word, _, rfl, isLead, ?_, ?_⟩, read⟩
      · rw [List.append_assoc, List.takeWhile_append_dropWhile]
      · simpa using spaces
      · exact fun c member => List.mem_takeWhile_imp member
  · rintro ⟨text, rfl, ⟨word, spaces, rfl, isLead, nonempty, blank⟩, read⟩
    have stops : ∀ c ∈ text.head?, Text.isSpace c = false := fun c first => by
      obtain ⟨d, first', starts⟩ := head?_of_reference? read
      obtain rfl : c = d := Option.some.inj (first.symm.trans first')
      exact isSpace_of_starts starts
    refine ⟨word, spaces ++ text, leadWord?_eq_some_iff.mpr ⟨by simp, isLead⟩, ?_⟩
    rw [Text.takeWhile_append_word blank stops, Text.dropWhile_append_rest blank stops, read,
      if_neg (by simpa using nonempty)]
    rfl

theorem tableClause?_eq_table {segment : Segment} (read : tableClause? cs = some (segment, rest)) :
    ∃ lead reference, segment = .table lead reference := by
  simp only [tableClause?, Option.bind_eq_bind, Option.bind_eq_some_iff, Prod.exists] at read
  obtain ⟨word, behind, -, some⟩ := read
  split at some
  · cases some
  · obtain ⟨⟨found, later⟩, -, same⟩ := Option.bind_eq_some_iff.mp some
    cases same
    exact ⟨_, _, rfl⟩

theorem tableClause?_isSome_iff : (tableClause? cs).isSome = true ↔
    ∃ lead text, cs = lead ++ text ∧ IsLead lead ∧ (name? text).isSome = true := by
  rw [Option.isSome_iff_exists, Prod.exists]
  constructor
  · rintro ⟨segment, rest, read⟩
    obtain ⟨lead, reference, rfl⟩ := tableClause?_eq_table read
    obtain ⟨text, rfl, isLead, read⟩ := tableClause?_eq_some_iff.mp read
    refine ⟨lead, text, rfl, isLead, ?_⟩
    rw [← reference?_isSome, read]
    rfl
  · rintro ⟨lead, text, rfl, isLead, some⟩
    rw [← reference?_isSome, Option.isSome_iff_exists, Prod.exists] at some
    obtain ⟨reference, rest, read⟩ := some
    exact ⟨_, rest, tableClause?_eq_some_iff.mpr ⟨text, rfl, isLead, read⟩⟩

theorem tableClause?_eq_none (first : ∀ c ∈ cs.head?, isQueryNameStart c = false) :
    tableClause? cs = none := by
  by_contra some
  obtain ⟨⟨segment, rest⟩, read⟩ := Option.ne_none_iff_exists'.mp some
  obtain ⟨lead, reference, rfl⟩ := tableClause?_eq_table read
  obtain ⟨text, rfl, ⟨word, spaces, rfl, isLead, -⟩, -⟩ := tableClause?_eq_some_iff.mp read
  obtain ⟨c, tail, rfl, start⟩ := isLead.starts
  rw [first c rfl] at start
  cases start

/-! ### Pieces -/

/-- The pieces of a text, where `opens` says whether a word may begin. -/
inductive Pieces : (opens : Bool) → List Char → List Segment → Prop where
  | nil {opens : Bool} : Pieces opens [] []
  | table {cs lead reference rest : List Char} {segs : List Segment}
      (clause : tableClause? cs = some (.table lead reference, rest))
      (later : Pieces (wordEndsAt reference.getLast?) rest segs) :
      Pieces true cs (.table lead reference :: segs)
  | other {opens : Bool} {c : Char} {rest : List Char} {segs : List Segment}
      (none : opens = true → tableClause? (c :: rest) = none)
      (later : Pieces (wordEndsAt (some c)) rest segs) :
      Pieces opens (c :: rest) (.other c :: segs)

theorem length_tableClause? (clause : tableClause? cs = some (.table lead reference, rest)) :
    rest.length < cs.length := by
  obtain ⟨text, rfl, ⟨word, spaces, rfl, isLead, -⟩, read⟩ := tableClause?_eq_some_iff.mp clause
  obtain ⟨names, -, -, -, rfl⟩ := reference?_eq_some_iff.mp read
  have := isLead.length
  simp only [List.length_append]
  omega

theorem pieces_segmentsFrom {rounds : Nat} {before : Option Char} (bound : cs.length ≤ rounds) :
    Pieces (wordEndsAt before) cs (segmentsFrom rounds before cs) := by
  induction rounds generalizing before cs with
  | zero =>
    obtain rfl := List.length_eq_zero_iff.mp (Nat.le_zero.mp bound)
    exact .nil
  | succ rounds ih =>
    cases cs with
    | nil => exact .nil
    | cons c rest =>
      rw [segmentsFrom]
      split
      · rename_i lead reference after read
        split at read
        · rename_i opens
          rw [opens]
          have shorter := Nat.lt_of_lt_of_le (length_tableClause? read) bound
          exact .table read (ih (Nat.le_of_lt_succ shorter))
        · cases read
      · rename_i other
        refine .other (fun opens => ?_) (ih (Nat.le_of_succ_le_succ bound))
        rw [if_pos opens] at other
        by_contra some
        obtain ⟨⟨segment, after⟩, read⟩ := Option.ne_none_iff_exists'.mp some
        obtain ⟨lead, reference, rfl⟩ := tableClause?_eq_table read
        exact other lead reference after read

theorem pieces_segments (cs : List Char) : Pieces true cs (segments cs) :=
  @pieces_segmentsFrom cs _ none (Nat.le_refl _)

/-- A text has one way to be cut. -/
theorem Pieces.unique {others : List Segment} (pieces : Pieces opens cs segs)
    (alike : Pieces opens cs others) : segs = others := by
  induction pieces generalizing others with
  | nil =>
    cases alike with
    | nil => rfl
    | table clause _ => cases clause
  | table clause _ ih =>
    cases alike with
    | nil => cases clause
    | table same later =>
      cases clause.symm.trans same
      rw [ih later]
    | other none _ =>
      rw [none rfl] at clause
      cases clause
  | other none _ ih =>
    cases alike with
    | table clause _ =>
      rw [none rfl] at clause
      cases clause
    | other _ later => rw [ih later]

theorem segments_eq_iff : segments cs = segs ↔ Pieces true cs segs :=
  ⟨fun same => same ▸ pieces_segments cs, fun pieces => (pieces_segments cs).unique pieces⟩

/-- Where no word of a clause begins, it does not matter whether one may. -/
theorem Pieces.reopen (pieces : Pieces opens cs segs)
    (first : ∀ c ∈ cs.head?, isQueryNameStart c = false) (other : Bool) : Pieces other cs segs := by
  cases pieces with
  | nil => exact .nil
  | table clause _ =>
    rw [tableClause?_eq_none first] at clause
    cases clause
  | other none later => exact .other (fun _ => tableClause?_eq_none first) later

theorem isQueryNameStart_of_part (stops : isQueryNamePart c = false) : isQueryNameStart c = false :=
  (Bool.or_eq_false_iff.mp stops).1

/-- Behind a reference it does not matter either. -/
theorem pieces_behind_iff (ends : Ends reference rest) :
    Pieces (wordEndsAt reference.getLast?) rest segs ↔ Pieces true rest segs := by
  rcases ends with tick | stops
  · rw [tick]
    rfl
  · have quiet : ∀ c ∈ rest.head?, isQueryNameStart c = false := fun c first =>
      isQueryNameStart_of_part (stops c first)
    exact ⟨fun pieces => pieces.reopen quiet true, fun pieces => pieces.reopen quiet _⟩

theorem pieces_table_iff : Pieces opens cs (.table lead reference :: segs) ↔
    opens = true ∧ ∃ rest, cs = lead ++ (reference ++ rest) ∧ IsLead lead ∧
      reference? (reference ++ rest) = some (reference, rest) ∧ Pieces true rest segs := by
  constructor
  · intro pieces
    cases pieces with
    | table clause later =>
      obtain ⟨text, rfl, isLead, read⟩ := tableClause?_eq_some_iff.mp clause
      obtain rfl := eq_append_of_reference? read
      exact ⟨rfl, _, rfl, isLead, read, (pieces_behind_iff (ends_of_reference? read)).mp later⟩
  · rintro ⟨rfl, rest, rfl, isLead, read, later⟩
    exact .table (tableClause?_eq_some_iff.mpr ⟨_, rfl, isLead, read⟩)
      ((pieces_behind_iff (ends_of_reference? read)).mpr later)

/-- A character that neither begins nor continues a word is passed over. -/
theorem Pieces.pass (pieces : Pieces true rest segs) (quiet : isQueryNameStart c = false)
    (ends : Text.isWordChar c = false) (opens : Bool) :
    Pieces opens (c :: rest) (.other c :: segs) := by
  refine .other (fun _ => tableClause?_eq_none fun d first => ?_) ?_
  · cases first
    exact quiet
  · rwa [wordEndsAt_iff.mpr fun d here => Option.some.inj here ▸ ends]

/-- The references of the pieces of a text. -/
def mentioned (segs : List Segment) : List (List Char) :=
  segs.filterMap fun
    | .table _ reference => some reference
    | .other _ => none

theorem mem_mentioned_iff :
    reference ∈ mentioned segs ↔ ∃ lead, Segment.table lead reference ∈ segs := by
  rw [mentioned, List.mem_filterMap]
  constructor
  · rintro ⟨segment, member, same⟩
    cases segment with
    | other c => cases same
    | table lead found =>
      cases same
      exact ⟨lead, member⟩
  · rintro ⟨lead, member⟩
    exact ⟨_, member, rfl⟩

theorem Pieces.exists_of_mentioned (pieces : Pieces opens cs segs)
    (member : reference ∈ mentioned segs) :
    ∃ text rest, reference? text = some (reference, rest) := by
  induction pieces with
  | nil => cases member
  | table clause _ ih =>
    rcases List.mem_cons.mp member with rfl | later
    · obtain ⟨text, -, -, read⟩ := tableClause?_eq_some_iff.mp clause
      exact ⟨text, _, read⟩
    · exact ih later
  | other _ _ ih => exact ih member

theorem mentioned_others (cs : List Char) : mentioned (cs.map .other) = [] := by
  simp [mentioned]

theorem mentioned_append (segs others : List Segment) :
    mentioned (segs ++ others) = mentioned segs ++ mentioned others :=
  List.filterMap_append

/-! ### Parts of a reference -/

theorem partsFrom_plain {current : List Char} (plain : ∀ c ∈ name, c ≠ '.' ∧ c ≠ backtick) :
    partsFrom false current (name ++ rest) = partsFrom false (name.reverse ++ current) rest := by
  induction name generalizing current with
  | nil => rfl
  | cons c name ih =>
    obtain ⟨dot, tick⟩ := plain c List.mem_cons_self
    have later := fun d member => plain d (List.mem_cons_of_mem c member)
    rw [List.cons_append, partsFrom, beq_false_of_ne dot, beq_false_of_ne tick,
      if_neg (by decide), Bool.bne_false, ih later]
    simp

theorem partsFrom_inside {current : List Char} (clear : backtick ∉ name) :
    partsFrom true current (name ++ rest) = partsFrom true (name.reverse ++ current) rest := by
  induction name generalizing current with
  | nil => rfl
  | cons c name ih =>
    obtain ⟨tick, clear⟩ := not_or.mp (List.mem_cons.not.mp clear)
    rw [List.cons_append, partsFrom, Bool.not_true, Bool.and_false, if_neg (by decide),
      beq_false_of_ne (Ne.symm tick), Bool.bne_false, ih clear]
    simp

theorem IsName.partsFrom_append (isName : IsName name) :
    partsFrom false [] (name ++ rest) = partsFrom false name.reverse rest := by
  cases isName with
  | @plain c tail start parts =>
    rw [partsFrom_plain, List.append_nil]
    exact fun d member => not_dot_of_isQueryNamePart (parts_of_start start parts d member)
  | @quoted inner _ clear =>
    have open' : partsFrom false [] (backtick :: (inner ++ backtick :: rest)) =
        partsFrom true [backtick] (inner ++ backtick :: rest) := rfl
    have close : ∀ current, partsFrom true current (backtick :: rest) =
        partsFrom false (backtick :: current) rest := fun _ => rfl
    simp only [List.cons_append, List.append_assoc, List.nil_append]
    rw [open', partsFrom_inside clear, close]
    simp

/-- The parts of a reference are its names without backticks. -/
theorem parts_dotted (isName : ∀ name ∈ names, IsName name) (nonempty : names ≠ []) :
    parts (String.ofList (dotted names)) = names.map unquoted := by
  obtain ⟨name, names, rfl⟩ := List.exists_cons_of_ne_nil nonempty
  rw [parts, String.toList_ofList, dotted_cons]
  clear nonempty
  induction names generalizing name with
  | nil =>
    rw [(isName name List.mem_cons_self).partsFrom_append]
    simp [partsFrom]
  | cons next names ih =>
    obtain ⟨here, later⟩ := List.forall_mem_cons.mp isName
    have dot : ∀ current rest, partsFrom false current ('.' :: rest) =
        unquoted current.reverse :: partsFrom false [] rest := fun _ _ => rfl
    rw [here.partsFrom_append, List.flatMap_cons, List.cons_append, dot, ih next later,
      List.reverse_reverse]
    rfl

theorem unquoted_append {inner x z : List Char} (clear : backtick ∉ inner) (nonempty : inner ≠ []) :
    unquoted (x ++ inner ++ z) = String.ofList (x.dropWhile (· == backtick) ++ inner ++
      Text.dropEndWhile (· == backtick) z) := by
  have solid : ∀ c ∈ inner, (c == backtick) = false := fun c member =>
    beq_false_of_ne fun same => clear (same ▸ member)
  have cut : unquoted (x ++ inner ++ z) = String.ofList (Text.dropEndWhile (· == backtick)
      ((x ++ inner ++ z).dropWhile (· == backtick))) := rfl
  rw [cut, Text.dropWhile_append_word solid nonempty, Text.dropEndWhile_append_word solid nonempty]

theorem unquoted_clear (clear : backtick ∉ name) (nonempty : name ≠ []) :
    unquoted name = String.ofList name := by
  have cut := @unquoted_append name [] [] clear nonempty
  rwa [List.nil_append, List.append_nil, List.dropWhile_nil, List.nil_append,
    show Text.dropEndWhile (· == backtick) [] = [] from rfl, List.append_nil] at cut

theorem unquoted_quoted (clear : backtick ∉ name) (nonempty : name ≠ []) :
    unquoted (backtick :: name ++ [backtick]) = String.ofList name := by
  have cut := @unquoted_append name [backtick] [backtick] clear nonempty
  rwa [show [backtick].dropWhile (· == backtick) = [] from rfl, List.nil_append,
    show Text.dropEndWhile (· == backtick) [backtick] = [] from rfl, List.append_nil] at cut

/-! ### Names in quoted form -/

/-- A plain name that is no reserved word. -/
def Simple (name : String) : Prop :=
  isPlainName name.toList = true ∧ isReserved name = false

instance (name : String) : Decidable (Simple name) :=
  inferInstanceAs (Decidable (_ ∧ _))

/-- A name that can be read back from its quoted form. -/
structure Readable (name : String) : Prop where
  some : name.toList ≠ []
  clear : backtick ∉ name.toList

theorem isQueryNamePart_of_isIdentifierPart (part : Text.isIdentifierPart c = true) :
    isQueryNamePart c = true := by
  simp only [Text.isIdentifierPart, Char.isAlphanum, Bool.or_eq_true] at part
  simp only [isQueryNamePart, isQueryNameStart, Text.isIdentifierStart, Bool.or_eq_true]
  tauto

theorem isName_append (plain : isPlainName cs = true)
    (parts : ∀ c ∈ rest, isQueryNamePart c = true) : IsName (cs ++ rest) := by
  cases cs with
  | nil => cases plain
  | cons c cs =>
    obtain ⟨start, more⟩ := Bool.and_eq_true_iff.mp plain
    refine .plain (by simp [isQueryNameStart, start]) (List.forall_mem_append.mpr ⟨?_, parts⟩)
    exact fun d member => isQueryNamePart_of_isIdentifierPart (List.all_eq_true.mp more d member)

theorem isName_of_isPlainName (plain : isPlainName cs = true) : IsName cs := by
  have isName := isName_append plain (List.forall_mem_nil _)
  rwa [List.append_nil] at isName

theorem Simple.quoteIdentifier {name : String} (simple : Simple name) :
    Sql.quoteIdentifier name = name := by
  rw [Sql.quoteIdentifier, if_pos]
  simp [simple.1, simple.2]

theorem Simple.isName {name : String} (simple : Simple name) : IsName name.toList :=
  isName_of_isPlainName simple.1

theorem Simple.readable {name : String} (simple : Simple name) : Readable name where
  some := simple.isName.ne_nil
  clear member := by
    have part := isIdentifierPart_of_isPlainName simple.1 _ member
    revert part
    decide

/-- A name stands as it is or between backticks. -/
theorem Readable.quoteIdentifier_toList {name : String} (readable : Readable name) :
    Simple name ∧ (quoteIdentifier name).toList = name.toList ∨
      (quoteIdentifier name).toList = backtick :: name.toList ++ [backtick] := by
  rw [quoteIdentifier]
  split
  · rename_i simple
    simp only [Bool.and_eq_true, Bool.not_eq_true'] at simple
    exact .inl ⟨simple, rfl⟩
  · have single : Text.replaceChar backtick [backtick, backtick] name.toList = name.toList := by
      refine (List.flatMap_congr fun c member => ?_).trans (List.flatMap_singleton' _)
      have apart : c ≠ backtick := by
        rintro rfl
        exact readable.clear member
      rw [beq_false_of_ne apart, if_neg Bool.false_ne_true]
    exact .inr (by rw [String.toList_ofList, inBackticks, single])

theorem Readable.isName {name : String} (readable : Readable name) :
    IsName (quoteIdentifier name).toList := by
  rcases readable.quoteIdentifier_toList with ⟨simple, same⟩ | same <;> rw [same]
  · exact isName_of_isPlainName simple.1
  · exact .quoted readable.some readable.clear

theorem Readable.unquoted {name : String} (readable : Readable name) :
    unquoted (quoteIdentifier name).toList = name := by
  rcases readable.quoteIdentifier_toList with ⟨-, same⟩ | same <;> rw [same]
  · rw [unquoted_clear readable.clear readable.some, String.ofList_toList]
  · rw [unquoted_quoted readable.clear readable.some, String.ofList_toList]

theorem toList_quoteQualified (parts : List String) : (quoteQualified parts).toList =
    dotted (parts.map fun name => (quoteIdentifier name).toList) := by
  rw [quoteQualified, String.toList_intercalate, List.map_map]
  rfl

end LakeSchema.Query
