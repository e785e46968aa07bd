import LakeSchema.Proofs.Sql.LetterCase
import Mathlib.Data.Bool.AllAny
import Mathlib.Data.List.Chain

/-!
# Texts laid out from tokens

A query that is given by its tokens may be written with any white space between them (`Laid`). The
scan finds the references that stand behind `FROM` and `JOIN` among the tokens, and no others
(`Reading.mentioned_eq`): it passes over words, names and marks (`Passes`).
-/

namespace LakeSchema.Query

open Sql

variable {c : Char} {cs text rest name : List Char} {names : List (List Char)} {opens : Bool}
  {segs : List Segment}

/-! ### Passing over names and marks -/

theorem Pieces.reopen_of_stops (pieces : Pieces true rest segs) (stops : Stops rest) (opens : Bool) :
    Pieces opens rest segs :=
  pieces.reopen (fun c first => isQueryNameStart_of_part (stops c first)) opens

/-- The scan passes over a text without a reference, whatever follows that does not go on with it. -/
def Passes (cs : List Char) : Prop :=
  ∀ opens rest segs, Stops rest → Pieces true rest segs →
    Pieces opens (cs ++ rest) (cs.map .other ++ segs)

theorem Pieces.inside {word : List Char} (parts : ∀ c ∈ word, isQueryNamePart c = true)
    (pieces : Pieces false rest segs) : Pieces false (word ++ rest) (word.map .other ++ segs) := by
  induction word with
  | nil => exact pieces
  | cons c word ih =>
    obtain ⟨here, later⟩ := List.forall_mem_cons.mp parts
    refine .other nofun ?_
    rw [wordEndsAt_of_part here]
    exact ih later

theorem passes_word {word : List Char} (nonempty : word ≠ [])
    (parts : ∀ c ∈ word, isQueryNamePart c = true) (other : ¬IsLeadWord word) : Passes word := by
  intro opens rest segs stops pieces
  obtain ⟨c, tail, rfl⟩ := List.exists_cons_of_ne_nil nonempty
  have within := (pieces.reopen_of_stops stops false).inside
    (List.forall_mem_cons.mp parts).2
  refine .other (fun _ => ?_) ?_
  · rw [← Option.not_isSome_iff_eq_none, tableClause?_isSome_iff]
    rintro ⟨lead, text, same, ⟨word, spaces, rfl, isLead, some, blank⟩, -⟩
    -- The word of a clause ends where this one does.
    obtain ⟨d, spaces, rfl⟩ := List.exists_cons_of_ne_nil some
    have gap : Stops (d :: spaces ++ text) := fun e first => Bool.eq_false_iff.mpr fun part => by
      cases first
      have solid := isSpace_of_isQueryNamePart part
      rw [blank d List.mem_cons_self] at solid
      cases solid
    have letters : ∀ c ∈ word, isQueryNamePart c = true := fun c member =>
      isQueryNamePart_of_start (isLead.letters c member)
    have same : c :: tail ++ rest = word ++ (d :: spaces ++ text) :=
      same.trans (List.append_assoc ..)
    have first := Text.takeWhile_append_word parts stops
    rw [same, Text.takeWhile_append_word letters gap] at first
    exact other (first ▸ isLead)
  · rwa [wordEndsAt_of_part (parts c List.mem_cons_self)]

/-- No `FROM` or `JOIN` stands by itself in front of white space. -/
def Leadless (cs : List Char) : Prop :=
  ∀ front lead back, cs = front ++ lead ++ back → IsLead lead → wordEndsAt front.getLast? = false

theorem IsLead.backtick_not_mem {lead : List Char} (isLead : IsLead lead) : backtick ∉ lead := by
  obtain ⟨word, spaces, rfl, isLead, -, blank⟩ := isLead
  intro member
  rcases List.mem_append.mp member with inWord | inSpaces
  · have start := isLead.letters _ inWord
    rw [isQueryNameStart_backtick] at start
    cases start
  · have space := blank _ inSpaces
    rw [isSpace_backtick] at space
    cases space

/-- What stands between backticks is passed over character by character. -/
theorem Pieces.between {inner : List Char} (front : List Char) (leadless : Leadless (front ++ inner))
    (pieces : Pieces opens (backtick :: rest) segs) :
    Pieces (wordEndsAt front.getLast?) (inner ++ backtick :: rest) (inner.map .other ++ segs) := by
  induction inner generalizing front with
  | nil => exact pieces.reopen (fun c first => by cases first; decide) _
  | cons c inner ih =>
    refine .other (fun opened => ?_) ?_
    · rw [← Option.not_isSome_iff_eq_none, tableClause?_isSome_iff]
      rintro ⟨lead, text, same, isLead, -⟩
      -- The words of a clause hold no backtick, so they end in front of it.
      obtain ⟨back, within⟩ : ∃ back, c :: inner = lead ++ back := by
        have same : c :: inner ++ backtick :: rest = lead ++ text := same
        rcases List.append_eq_append_iff.mp same with ⟨more, lead_eq, tail⟩ | ⟨back, within, -⟩
        · cases more with
          | nil => exact ⟨[], by simp [lead_eq]⟩
          | cons d more =>
            cases tail
            exact absurd (by rw [lead_eq]; simp) isLead.backtick_not_mem
        · exact ⟨back, within⟩
      have blocked := leadless front lead back (by rw [within, List.append_assoc]) isLead
      rw [opened] at blocked
      cases blocked
    · have next := ih (front ++ [c]) (by rwa [List.append_assoc])
      rwa [List.getLast?_concat] at next

theorem passes_quoted {inner : List Char} (leadless : Leadless inner) :
    Passes (backtick :: inner ++ [backtick]) := by
  intro opens rest segs stops pieces
  have close := pieces.pass isQueryNameStart_backtick (by decide) true
  have inside := close.between [] leadless
  rw [List.map_append, List.append_assoc, List.append_assoc]
  exact Pieces.pass inside isQueryNameStart_backtick (by decide) opens

theorem passes_dotted (passes : ∀ name ∈ names, Passes name) (nonempty : names ≠ []) :
    Passes (dotted names) := by
  obtain ⟨name, names, rfl⟩ := List.exists_cons_of_ne_nil nonempty
  rw [dotted_cons]
  clear nonempty
  induction names generalizing name with
  | nil => simpa using passes name
  | cons next names ih =>
    obtain ⟨here, later⟩ := List.forall_mem_cons.mp passes
    intro opens rest segs stops pieces
    have quiet : isQueryNameStart '.' = false ∧ Text.isWordChar '.' = false := by decide
    have behind := (ih next later true rest segs stops pieces).pass quiet.1 quiet.2 true
    have whole := here opens _ _ (fun c first => by cases first; decide) behind
    simpa using whole

/-! ### Texts laid out from tokens -/

/-- Marks, which need no white space around them. -/
def marks : List Char :=
  [',', '*', '=']

def isMark (token : String) : Bool :=
  marks.any (token.toList == [·])

/-- Tokens in their order with white space between them, which may be missing next to marks. -/
inductive Laid : List String → List Char → Prop where
  | nil {gap : List Char} (blank : ∀ c ∈ gap, Text.isSpace c = true) : Laid [] gap
  | cons {gap rest : List Char} {token : String} {tokens : List String}
      (blank : ∀ c ∈ gap, Text.isSpace c = true) (later : Laid tokens rest)
      (apart : isMark token = true ∨ (∀ next ∈ tokens.head?, isMark next = true) ∨
        ∃ c ∈ rest.head?, Text.isSpace c = true) :
      Laid (token :: tokens) (gap ++ token.toList ++ rest)

variable {token : String} {tokens : List String} {references : List (List Char)}

theorem Laid.blank_append {gap : List Char} (laid : Laid tokens text)
    (blank : ∀ c ∈ gap, Text.isSpace c = true) : Laid tokens (gap ++ text) := by
  cases laid with
  | nil more => exact .nil (List.forall_mem_append.mpr ⟨blank, more⟩)
  | cons more later apart =>
    rw [← List.append_assoc, ← List.append_assoc]
    exact .cons (List.forall_mem_append.mpr ⟨blank, more⟩) later apart

/-- Tokens may stand with a space between any two. -/
theorem laid_spaced (tokens : List String) : Laid tokens (" ".intercalate tokens).toList := by
  have first {token : String} {tokens : List String} {rest : List Char} (later : Laid tokens rest)
      (apart : isMark token = true ∨ (∀ next ∈ tokens.head?, isMark next = true) ∨
        ∃ c ∈ rest.head?, Text.isSpace c = true) : Laid (token :: tokens) (token.toList ++ rest) :=
    @Laid.cons [] rest token tokens (List.forall_mem_nil _) later apart
  rw [String.toList_intercalate]
  induction tokens with
  | nil => exact .nil (List.forall_mem_nil _)
  | cons token tokens ih =>
    cases tokens with
    | nil =>
      have alone := @first token _ _ (.nil (List.forall_mem_nil _)) (.inr (.inl nofun))
      simpa using alone
    | cons next tokens =>
      rw [List.map_cons, List.map_cons, List.intercalate_cons_cons, List.append_assoc]
      have space : ∀ c ∈ " ".toList, Text.isSpace c = true := List.all_eq_true.mp rfl
      exact first (ih.blank_append space) (.inr (.inr ⟨' ', rfl, by decide⟩))

/-- White space, a mark or nothing follows. -/
def Halts (rest : List Char) : Prop :=
  ∀ c ∈ rest.head?, Text.isSpace c = true ∨ c ∈ marks

theorem Halts.stops (halts : Halts rest) : Stops rest := fun c first => by
  have quiet : ∀ c ∈ marks, isQueryNamePart c = false := List.all_iff_forall_prop.mp rfl
  rcases halts c first with blank | mark
  · refine Bool.eq_false_iff.mpr fun part => ?_
    rw [isSpace_of_isQueryNamePart part] at blank
    cases blank
  · exact quiet c mark

theorem Halts.finished (halts : Halts rest) : Finished rest := by
  rintro later rfl
  exact absurd (halts '.' rfl) (by decide)

theorem toList_of_isMark (mark : isMark token = true) :
    ∃ c ∈ marks, token.toList = [c] := by
  obtain ⟨c, member, same⟩ := List.any_eq_true.mp mark
  exact ⟨c, member, beq_iff_eq.mp same⟩

theorem Laid.halts (laid : Laid tokens text)
    (apart : (∀ next ∈ tokens.head?, isMark next = true) ∨ ∃ c ∈ text.head?, Text.isSpace c = true) :
    Halts text := by
  intro c first
  rcases apart with marks | ⟨d, here, blank⟩
  · cases laid with
    | nil blank => exact .inl (blank c (List.mem_of_mem_head? first))
    | @cons gap rest token tokens blank later _ =>
      obtain ⟨d, mark, same⟩ := toList_of_isMark (marks token rfl)
      cases gap with
      | nil =>
        rw [same] at first
        cases first
        exact .inr mark
      | cons e gap =>
        cases first
        exact .inl (blank c List.mem_cons_self)
  · cases here.symm.trans first
    exact .inl blank

/-- Tokens of a query, with the references among them: those behind `FROM` and `JOIN`. -/
inductive Reading : List String → List (List Char) → Prop where
  | nil : Reading [] []
  | mark {token : String} {tokens : List String} {references : List (List Char)}
      (mark : isMark token = true) (later : Reading tokens references) :
      Reading (token :: tokens) references
  | word {token : String} {tokens : List String} {references : List (List Char)}
      (word : isMark token = false) (passes : Passes token.toList)
      (later : Reading tokens references) : Reading (token :: tokens) references
  | table {lead token : String} {names : List (List Char)} {tokens : List String}
      {references : List (List Char)} (isLead : lead = "FROM" ∨ lead = "JOIN")
      (word : isMark token = false) (isNames : ∀ name ∈ names, IsName name) (some : names ≠ [])
      (most : names.length ≤ 3) (same : token.toList = dotted names)
      (later : Reading tokens references) :
      Reading (lead :: token :: tokens) (dotted names :: references)

theorem isQueryNameStart_of_isMark {token : String} (mark : isMark token = true) :
    ∃ c, token.toList = [c] ∧ isQueryNameStart c = false ∧ Text.isWordChar c = false := by
  have each : ∀ c ∈ marks, isQueryNameStart c = false ∧ Text.isWordChar c = false :=
    List.all_iff_forall_prop.mp rfl
  obtain ⟨c, member, same⟩ := toList_of_isMark mark
  exact ⟨c, same, each c member⟩

theorem Laid.halts_behind {rest : List Char} (laid : Laid tokens rest) (word : isMark token = false)
    (apart : isMark token = true ∨ (∀ next ∈ tokens.head?, isMark next = true) ∨
      ∃ c ∈ rest.head?, Text.isSpace c = true) : Halts rest :=
  laid.halts (apart.resolve_left (by rw [word]; exact Bool.false_ne_true))

theorem mentioned_mark (mark : isMark token = true) (rest : List Char) :
    mentioned (segments (token.toList ++ rest)) = mentioned (segments rest) := by
  obtain ⟨c, same, quiet, ends⟩ := isQueryNameStart_of_isMark mark
  rw [same, List.singleton_append,
    segments_eq_iff.mpr ((pieces_segments rest).pass quiet ends true)]
  rfl

theorem Passes.mentioned (passes : Passes cs) (halts : Halts rest) :
    mentioned (segments (cs ++ rest)) = mentioned (segments rest) := by
  rw [segments_eq_iff.mpr (passes true rest _ halts.stops (pieces_segments rest)), mentioned_append,
    mentioned_others, List.nil_append]

theorem mentioned_table {lead : List Char} (isLead : IsLead lead)
    (isName : ∀ name ∈ names, IsName name) (some : names ≠ []) (most : names.length ≤ 3)
    (halts : Halts rest) : mentioned (segments (lead ++ (dotted names ++ rest))) =
      dotted names :: mentioned (segments rest) := by
  have read : reference? (dotted names ++ rest) = Option.some (dotted names, rest) :=
    reference?_eq_some_iff.mpr ⟨names, some, ⟨isName, most, fun _ _ => .inr halts.stops,
      fun _ => halts.finished⟩, rfl, rfl⟩
  rw [segments_eq_iff.mpr (pieces_table_iff.mpr ⟨rfl, rest, rfl, isLead, read, pieces_segments rest⟩)]
  rfl

theorem isLeadWord_toList {lead : String} (isLead : lead = "FROM" ∨ lead = "JOIN") :
    IsLeadWord lead.toList := by
  rcases isLead with rfl | rfl
  · exact .inl (List.forall₂_same.mpr (List.all_iff_forall_prop.mp rfl))
  · exact .inr (List.forall₂_same.mpr (List.all_iff_forall_prop.mp rfl))

theorem isMark_lead {lead : String} (isLead : lead = "FROM" ∨ lead = "JOIN") :
    isMark lead = false := by
  rcases isLead with rfl | rfl <;> decide

theorem exists_cons_dotted (isName : ∀ name ∈ names, IsName name) (some : names ≠ []) :
    ∃ c rest, dotted names = c :: rest ∧ Text.isSpace c = false := by
  obtain ⟨name, names, rfl⟩ := List.exists_cons_of_ne_nil some
  obtain ⟨c, rest, rfl, starts⟩ := (isName name List.mem_cons_self).starts
  exact ⟨c, _, by rw [dotted_cons, List.cons_append], isSpace_of_starts starts⟩

/-- The scan of a text finds the references among its tokens. -/
theorem Reading.mentioned_eq (reading : Reading tokens references) (laid : Laid tokens text) :
    mentioned (segments text) = references := by
  induction reading generalizing text with
  | nil =>
    cases laid with
    | nil blank =>
      have alone := mentioned_blank_append blank []
      rwa [List.append_nil] at alone
  | mark mark _ ih =>
    cases laid with
    | cons blank later _ =>
      rw [List.append_assoc, mentioned_blank_append blank, mentioned_mark mark, ih later]
  | word word passes _ ih =>
    cases laid with
    | cons blank later apart =>
      rw [List.append_assoc, mentioned_blank_append blank,
        passes.mentioned (later.halts_behind word apart), ih later]
  | @table lead token names _ _ isLead word isName some most same _ ih =>
    cases laid with
    | @cons gap _ _ _ blank further apart =>
      cases further with
      | @cons space rest _ _ blank' later apart' =>
        have halts := later.halts_behind word apart'
        have leads : IsLead (lead.toList ++ space) := by
          refine ⟨lead.toList, space, rfl, isLeadWord_toList isLead, ?_, blank'⟩
          rintro rfl
          -- A reference does not begin with white space, and neither of the two is a mark.
          obtain ⟨c, later, begins, solid⟩ := exists_cons_dotted isName some
          rcases apart with mark | marks | ⟨d, first, gap⟩
          · rw [isMark_lead isLead] at mark
            cases mark
          · have mark := marks token rfl
            rw [word] at mark
            cases mark
          · rw [List.nil_append, same, begins] at first
            cases first
            rw [solid] at gap
            cases gap
        rw [List.append_assoc, mentioned_blank_append blank, same, List.append_assoc,
          ← List.append_assoc, mentioned_table leads isName some most halts, ih later]

/-! ### Comments -/

def BeginNoComment (c d : Char) : Prop :=
  ¬(c = '-' ∧ d = '-') ∧ ¬(c = '/' ∧ d = '*')

/-- No comment can begin in the text or with its last character. -/
structure Markless (cs : List Char) : Prop where
  chain : cs.IsChain BeginNoComment
  last : ∀ c ∈ cs.getLast?, c ≠ '-' ∧ c ≠ '/'

theorem beginNoComment {c : Char} (other : c ≠ '-' ∧ c ≠ '/') (d : Char) : BeginNoComment c d :=
  ⟨fun same => other.1 same.1, fun same => other.2 same.1⟩

theorem markless_of_all (all : ∀ c ∈ cs, c ≠ '-' ∧ c ≠ '/') : Markless cs where
  chain := by
    induction cs with
    | nil => exact .nil
    | cons c cs ih =>
      obtain ⟨here, later⟩ := List.forall_mem_cons.mp all
      exact List.isChain_cons.mpr ⟨fun d _ => beginNoComment here d, ih later⟩
  last c last := all c (List.mem_of_getLast? last)

theorem Markless.append {other : List Char} (first : Markless cs) (second : Markless other) :
    Markless (cs ++ other) where
  chain := List.isChain_append.mpr ⟨first.chain, second.chain, fun c last d _ =>
    beginNoComment (first.last c last) d⟩
  last c last := by
    rw [List.getLast?_append, Option.mem_def, Option.or_eq_some_iff] at last
    rcases last with later | ⟨-, here⟩
    · exact second.last c later
    · exact first.last c here

theorem uncommented_eq (markless : Markless cs) : uncommented cs = cs := by
  have next {c : Char} {rest : List Char} (chain : (c :: rest).IsChain BeginNoComment) :
      rest.IsChain BeginNoComment := (List.isChain_cons.mp chain).2
  have blocks : ∀ cs : List Char, cs.IsChain BeginNoComment → withoutBlocks false cs = cs := by
    intro cs chain
    induction cs with
    | nil => simp [withoutBlocks]
    | cons c rest ih =>
      rw [withoutBlocks, ih (next chain)]
      rintro tail rfl rfl
      exact (List.isChain_cons_cons.mp chain).1.2 ⟨rfl, rfl⟩
  have lines : ∀ cs : List Char, cs.IsChain BeginNoComment → withoutLines false cs = cs := by
    intro cs chain
    induction cs with
    | nil => simp [withoutLines]
    | cons c rest ih =>
      rw [withoutLines, ih (next chain)]
      rintro tail rfl rfl
      exact (List.isChain_cons_cons.mp chain).1.1 ⟨rfl, rfl⟩
  rw [uncommented, blocks cs markless.chain, lines cs markless.chain]

/-- In a query without comments the tables that are found are those that are rewritten, as long as its
quoted names have single spaces and no reference leads to another catalog or schema. -/
theorem found_iff_rewrites_of_markless {p : Project} {sql : String} (keyed : p.Keyed)
    (differ : TablesDiffer p) (markless : Markless sql.toList)
    (spaced : ∀ reference ∈ written sql, singleSpaced reference = reference)
    (own : ∀ reference ∈ written sql, ∀ t, ¬NamesElsewhere p reference t) {t : Table}
    (present : t ∈ p.tables) : t.id ∈ tables p sql ↔ Rewrites p sql t := by
  have same : bare sql = written sql := by rw [bare, written, uncommented_eq markless]
  have plain : ∀ reference ∈ written sql, Plain sql reference := fun reference member =>
    ⟨same ▸ member, member, spaced reference member⟩
  have found : ¬FoundOtherwise p sql t := by
    rintro ⟨reference, member, u, named, id, apart⟩
    rw [same] at member
    rcases apart with unlike | elsewhere | other
    · exact unlike (plain reference member)
    · exact own reference member u elsewhere
    · exact other (List.inj_on_of_nodup_map keyed.tables (List.mem_of_find?_eq_some named) present id)
  have rewritten : ¬RewrittenOtherwise p sql t := by
    rintro ⟨reference, member, unlike, -⟩
    exact unlike (plain reference member)
  rw [found_iff, rewrites_iff_readAlike differ present, or_iff_left found, or_iff_left rewritten]

theorem markless_blank {gap : List Char} (blank : ∀ c ∈ gap, Text.isSpace c = true) : Markless gap :=
  markless_of_all fun c member => by
    constructor <;>
    · rintro rfl
      cases blank _ member

theorem Laid.markless (laid : Laid tokens text) (each : ∀ token ∈ tokens, Markless token.toList) :
    Markless text := by
  induction laid with
  | nil blank => exact markless_blank blank
  | cons blank _ _ ih =>
    obtain ⟨here, later⟩ := List.forall_mem_cons.mp each
    exact ((markless_blank blank).append here).append (ih later)

end LakeSchema.Query
