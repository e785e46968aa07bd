import LakeSchema.Proofs.Sql.TableReference

/-!
# Texts that are spelled otherwise

White space and the case of letters do not matter to the scan of a query: written with single
spaces, none of them at the end, and with each letter in another form, a text has the same references,
each of them written so (`Pieces.respelled`).
-/

namespace LakeSchema.Query

open Sql

/-- Other forms of characters, which the scan takes for the same. -/
structure Respelling where
  letter : Char → Char
  space : ∀ c, Text.isSpace (letter c) = Text.isSpace c
  start : ∀ c, isQueryNameStart (letter c) = isQueryNameStart c
  part : ∀ c, isQueryNamePart (letter c) = isQueryNamePart c
  word : ∀ c, Text.isWordChar (letter c) = Text.isWordChar c
  spells : ∀ keyword c, isLetter keyword (letter c) = isLetter keyword c
  tick : ∀ c, letter c = backtick ↔ c = backtick
  dot : ∀ c, letter c = '.' ↔ c = '.'

/-- The text with other forms of its characters, with single spaces and none at its end. -/
def Respelling.text (r : Respelling) : List Char → List Char
  | [] => []
  | c :: rest =>
    if Text.isSpace c then
      if rest.head?.all Text.isSpace then r.text rest else ' ' :: r.text rest
    else r.letter c :: r.text rest

variable {r : Respelling} {c d : Char} {cs rest name reference lead : List Char}
  {names : List (List Char)} {opens : Bool} {segs : List Segment}

namespace Respelling

/-! ### Characters and white space -/

theorem text_cons (solid : Text.isSpace c = false) : r.text (c :: cs) = r.letter c :: r.text cs := by
  rw [text, if_neg (by rw [solid]; exact Bool.false_ne_true)]

theorem text_word {word : List Char} (solid : ∀ c ∈ word, Text.isSpace c = false) (z : List Char) :
    r.text (word ++ z) = word.map r.letter ++ r.text z := by
  induction word with
  | nil => rfl
  | cons c word ih =>
    obtain ⟨here, later⟩ := List.forall_mem_cons.mp solid
    rw [List.cons_append, text_cons here, ih later, List.map_cons, List.cons_append]

/-- What stands in front of a character is spelled without regard to what stands behind it. -/
theorem exists_text_front (solid : Text.isSpace c = false) (front : List Char) :
    ∃ front', (∀ z, r.text (front ++ c :: z) = front' ++ r.letter c :: r.text z) ∧
      (front ≠ [] → front' ≠ []) ∧ (backtick ∈ front' → backtick ∈ front) := by
  induction front with
  | nil => exact ⟨[], fun z => text_cons solid, id, id⟩
  | cons d front ih =>
    obtain ⟨front', spelled, some, tick⟩ := ih
    have next : ∀ z, (front ++ c :: z).head? = (front ++ [c]).head? := fun z => by
      cases front <;> rfl
    simp only [List.cons_append, text, next, spelled]
    split
    · split
      · rename_i more
        refine ⟨front', fun _ => rfl, fun _ => some fun empty => ?_, fun member =>
          List.mem_cons_of_mem d (tick member)⟩
        simp [empty, solid] at more
      · refine ⟨' ' :: front', fun _ => rfl, fun _ => List.cons_ne_nil _ _, fun member => ?_⟩
        exact List.mem_cons_of_mem d (tick ((List.mem_cons.mp member).resolve_left (by decide)))
    · refine ⟨r.letter d :: front', fun _ => rfl, fun _ => List.cons_ne_nil _ _, fun member => ?_⟩
      rcases List.mem_cons.mp member with same | later
      · rw [(r.tick d).mp same.symm]
        exact List.mem_cons_self
      · exact List.mem_cons_of_mem d (tick later)

/-- A text is spelled part by part where it is cut behind a character. -/
theorem text_append {z : List Char} (last : cs.getLast? = some c) (solid : Text.isSpace c = false) :
    r.text (cs ++ z) = r.text cs ++ r.text z := by
  obtain ⟨front, rfl⟩ := List.getLast?_eq_some_iff.mp last
  obtain ⟨front', spelled, -⟩ := exists_text_front (r := r) solid front
  rw [List.append_assoc, List.singleton_append, spelled, spelled]
  simp [text]

theorem getLast?_text (last : cs.getLast? = some c) (solid : Text.isSpace c = false) :
    (r.text cs).getLast? = some (r.letter c) := by
  obtain ⟨front, rfl⟩ := List.getLast?_eq_some_iff.mp last
  obtain ⟨front', spelled, -⟩ := exists_text_front (r := r) solid front
  rw [spelled]
  exact List.getLast?_concat

theorem backtick_mem_text_iff : backtick ∈ r.text cs ↔ backtick ∈ cs := by
  induction cs with
  | nil => exact Iff.rfl
  | cons c cs ih =>
    rw [text]
    by_cases blank : Text.isSpace c = true
    · have other : backtick ≠ c := by
        rintro rfl
        cases blank
      rw [if_pos blank, List.mem_cons, or_iff_right other, ← ih]
      split
      · rfl
      · rw [List.mem_cons, or_iff_right (by decide)]
    · rw [if_neg blank, List.mem_cons, List.mem_cons, ih, eq_comm, r.tick, eq_comm]

/-- A text begins like its other spelling, unless that begins with white space. -/
theorem exists_of_head?_text (first : (r.text cs).head? = some d) (solid : Text.isSpace d = false) :
    ∃ c rest, cs = c :: rest ∧ Text.isSpace c = false ∧ r.letter c = d := by
  induction cs with
  | nil => cases first
  | cons c cs ih =>
    rw [text] at first
    split at first
    · split at first
      · rename_i more
        obtain ⟨e, rest, rfl, here, -⟩ := ih first
        simp [here] at more
      · cases first
        cases solid
    · rename_i here
      exact ⟨c, cs, rfl, Bool.eq_false_iff.mpr here, Option.some.inj first⟩

theorem letter_space (same : r.letter c = d) (solid : Text.isSpace c = false) :
    Text.isSpace d = false := by
  rw [← same, r.space, solid]

/-- What another spelling begins with, if it has no space, the text begins with. -/
theorem exists_of_text_eq {word : List Char} (solid : ∀ c ∈ word, Text.isSpace c = false)
    (same : r.text cs = word ++ rest) :
    ∃ front z, cs = front ++ z ∧ word = front.map r.letter ∧ r.text z = rest := by
  induction word generalizing cs with
  | nil => exact ⟨[], cs, rfl, rfl, same⟩
  | cons c word ih =>
    obtain ⟨here, later⟩ := List.forall_mem_cons.mp solid
    obtain ⟨d, tail, rfl, alone, rfl⟩ := exists_of_head?_text (by rw [same]; rfl) here
    rw [text_cons alone] at same
    obtain ⟨front, z, rfl, rfl, behind⟩ := ih later (List.cons.inj same).2
    exact ⟨d :: front, z, rfl, rfl, behind⟩

/-- White space in front of a character becomes one space. -/
theorem text_blank {spaces : List Char} (nonempty : spaces ≠ [])
    (blank : ∀ c ∈ spaces, Text.isSpace c = true) (solid : Text.isSpace c = false) :
    r.text (spaces ++ c :: cs) = ' ' :: r.text (c :: cs) := by
  induction spaces with
  | nil => contradiction
  | cons d spaces ih =>
    obtain ⟨here, later⟩ := List.forall_mem_cons.mp blank
    rw [List.cons_append, text, if_pos here]
    cases spaces with
    | nil => rw [List.nil_append, if_neg (by simpa using solid)]
    | cons e spaces => rw [if_pos (by simp [later]), ih (List.cons_ne_nil _ _) later]

/-- Behind the white space of another spelling stands what stands behind that of the text. -/
theorem exists_of_text_blank {spaces : List Char} (nonempty : spaces ≠ [])
    (blank : ∀ c ∈ spaces, Text.isSpace c = true) (same : r.text cs = spaces ++ d :: rest) :
    ∃ front c tail, cs = front ++ c :: tail ∧ front ≠ [] ∧
      (∀ c ∈ front, Text.isSpace c = true) ∧ r.text (c :: tail) = d :: rest := by
  obtain ⟨e, spaces, rfl⟩ := List.exists_cons_of_ne_nil nonempty
  obtain ⟨here, later⟩ := List.forall_mem_cons.mp blank
  induction cs with
  | nil => cases same
  | cons c cs ih =>
    by_cases gap : Text.isSpace c = true
    · rw [text, if_pos gap] at same
      split at same
      · obtain ⟨front, c', tail, rfl, -, blank', behind⟩ := ih same
        exact ⟨c :: front, c', tail, rfl, List.cons_ne_nil _ _,
          List.forall_mem_cons.mpr ⟨gap, blank'⟩, behind⟩
      · rename_i stops
        have more : cs ≠ [] := fun empty => stops (by rw [empty]; rfl)
        obtain ⟨next, tail, rfl⟩ := List.exists_cons_of_ne_nil more
        refine ⟨[c], next, tail, rfl, List.cons_ne_nil _ _, by simpa using gap, ?_⟩
        have alone : Text.isSpace next = false := by simpa using stops
        rw [text_cons alone] at same ⊢
        cases spaces with
        | nil => exact (List.cons.inj same).2
        | cons f spaces =>
          obtain ⟨first, -⟩ := List.cons.inj (List.cons.inj same).2
          have solid := letter_space first alone
          rw [later f List.mem_cons_self] at solid
          cases solid
    · have alone := Bool.eq_false_iff.mpr gap
      rw [text_cons alone] at same
      have solid := letter_space (List.cons.inj same).1 alone
      rw [here] at solid
      cases solid

/-! ### Names and references -/

theorem name?_text_isSome : (name? (r.text cs)).isSome = (name? cs).isSome := by
  rw [Bool.eq_iff_iff, name?_isSome_iff, name?_isSome_iff]
  have tick : ∀ cs, (r.text cs).head? = some backtick ↔ cs.head? = some backtick := fun cs => by
    constructor
    · intro first
      obtain ⟨c, rest, rfl, -, same⟩ := exists_of_head?_text first isSpace_backtick
      rw [(r.tick c).mp same]
      rfl
    · intro first
      obtain ⟨rest, rfl⟩ := List.head?_eq_some_iff.mp first
      rw [text_cons isSpace_backtick, (r.tick backtick).mpr rfl]
      rfl
  constructor
  · rintro ⟨d, rest, same, starts⟩
    have solid := isSpace_of_starts (starts.imp_right And.left)
    obtain ⟨c, tail, rfl, alone, rfl⟩ := exists_of_head?_text (by rw [same]; rfl) solid
    rw [text_cons alone] at same
    obtain ⟨-, rfl⟩ := List.cons.inj same
    rw [r.start, r.tick, backtick_mem_text_iff, Ne, tick] at starts
    exact ⟨c, tail, rfl, starts⟩
  · rintro ⟨c, rest, rfl, starts⟩
    have solid := isSpace_of_starts (starts.imp_right And.left)
    refine ⟨r.letter c, r.text rest, text_cons solid, ?_⟩
    rwa [r.start, r.tick, backtick_mem_text_iff, Ne, tick]

end Respelling

theorem IsName.respelled (isName : IsName name) (r : Respelling) : IsName (r.text name) := by
  cases isName with
  | @plain c rest start parts =>
    have solid : ∀ d ∈ c :: rest, Text.isSpace d = false := fun d member =>
      isSpace_of_isQueryNamePart (parts_of_start start parts d member)
    have spelled := r.text_word solid []
    rw [List.append_nil, Respelling.text, List.append_nil] at spelled
    rw [spelled]
    exact .plain (by rwa [r.start]) (List.forall_mem_map.mpr fun d member => by
      rw [r.part, parts d member])
  | @quoted inner nonempty clear =>
    obtain ⟨front', spelled, some, tick⟩ :=
      Respelling.exists_text_front (r := r) isSpace_backtick inner
    rw [List.cons_append, Respelling.text_cons isSpace_backtick, spelled, (r.tick backtick).mpr rfl]
    exact .quoted (some nonempty) fun member => clear (tick member)

theorem Ends.respelled (ends : Ends name rest) (r : Respelling) :
    Ends (r.text name) (r.text rest) := by
  rcases ends with tick | stops
  · refine .inl ?_
    rw [r.getLast?_text tick isSpace_backtick, (r.tick backtick).mpr rfl]
  · refine .inr fun c first => Bool.eq_false_iff.mpr fun part => ?_
    obtain ⟨d, later, rfl, -, rfl⟩ :=
      r.exists_of_head?_text first (isSpace_of_isQueryNamePart part)
    rw [r.part, stops d rfl] at part
    cases part

theorem Finished.respelled (finished : Finished rest) (r : Respelling) : Finished (r.text rest) := by
  intro later same
  obtain ⟨c, tail, rfl, solid, dot⟩ :=
    r.exists_of_head?_text (d := '.') (by rw [same]; rfl) (by decide)
  rw [(r.dot c).mp dot, Respelling.text_cons (by decide)] at same
  obtain ⟨-, rfl⟩ := List.cons.inj same
  rw [← Option.not_isSome_iff_eq_none, Respelling.name?_text_isSome, Option.not_isSome_iff_eq_none]
  exact finished tail (by rw [(r.dot c).mp dot])

theorem Reads.respelled {most : Nat} (reads : Reads most names rest) (r : Respelling) :
    Reads most (names.map r.text) (r.text rest) where
  each := List.forall_mem_map.mpr fun name member => (reads.each name member).respelled r
  bound := by
    rw [List.length_map]
    exact reads.bound
  ends name last := by
    rw [List.getLast?_map] at last
    obtain ⟨written, final, rfl⟩ := Option.map_eq_some_iff.mp last
    exact (reads.ends written final).respelled r
  finished fewer := (reads.finished (by rwa [List.length_map] at fewer)).respelled r

theorem respelled_dotted (isName : ∀ name ∈ names, IsName name) (r : Respelling) :
    r.text (dotted names) = dotted (names.map r.text) := by
  cases names with
  | nil => rfl
  | cons name names =>
    rw [dotted_cons, List.map_cons, dotted_cons]
    induction names generalizing name with
    | nil => simp
    | cons next names ih =>
      obtain ⟨here, later⟩ := List.forall_mem_cons.mp isName
      obtain ⟨c, last, solid⟩ := here.getLast?
      rw [r.text_append last solid, List.flatMap_cons, List.cons_append,
        r.text_cons (by decide), (r.dot '.').mpr rfl, ih next later]
      simp

theorem reference?_respelled (read : reference? cs = some (reference, rest)) (r : Respelling) :
    reference? (r.text cs) = some (r.text reference, r.text rest) := by
  obtain ⟨c, last, solid⟩ := getLast?_of_reference? read
  obtain ⟨names, nonempty, reads, rfl, rfl⟩ := reference?_eq_some_iff.mp read
  exact reference?_eq_some_iff.mpr ⟨names.map r.text,
    fun empty => nonempty (List.map_eq_nil_iff.mp empty), reads.respelled r,
    respelled_dotted reads.each r, r.text_append last solid⟩

/-! ### Clauses and pieces -/

theorem isLeadWord_respelled {word : List Char} :
    IsLeadWord (word.map r.letter) ↔ IsLeadWord word := by
  simp only [IsLeadWord, Spells, List.forall₂_map_right_iff, r.spells]

theorem tableClause?_respelled (read : tableClause? cs = some (.table lead reference, rest))
    (r : Respelling) : ∃ lead', tableClause? (r.text cs) =
      some (.table lead' (r.text reference), r.text rest) := by
  obtain ⟨text, rfl, ⟨word, spaces, rfl, isLead, nonempty, blank⟩, refers⟩ :=
    tableClause?_eq_some_iff.mp read
  obtain ⟨c, first, starts⟩ := head?_of_reference? refers
  obtain ⟨later, rfl⟩ := List.head?_eq_some_iff.mp first
  refine ⟨word.map r.letter ++ [' '], tableClause?_eq_some_iff.mpr ⟨r.text (c :: later), ?_,
    ⟨word.map r.letter, [' '], rfl, isLeadWord_respelled.mpr isLead, List.cons_ne_nil _ _,
      List.forall_mem_singleton.mpr rfl⟩, reference?_respelled refers r⟩⟩
  rw [List.append_assoc, r.text_word isLead.solid,
    r.text_blank nonempty blank (isSpace_of_starts starts)]
  simp

theorem tableClause?_respelled_eq_none (none : tableClause? cs = none) (r : Respelling) :
    tableClause? (r.text cs) = Option.none := by
  rw [← Option.not_isSome_iff_eq_none, tableClause?_isSome_iff] at none ⊢
  rintro ⟨lead, text, same, ⟨word, spaces, rfl, isLead, nonempty, blank⟩, named⟩
  obtain ⟨d, later, rfl, -⟩ := name?_isSome_iff.mp named
  rw [List.append_assoc] at same
  obtain ⟨front, z, rfl, rfl, behind⟩ := r.exists_of_text_eq isLead.solid same
  obtain ⟨spaces, c, tail, rfl, nonempty, blank, spelled⟩ :=
    r.exists_of_text_blank nonempty blank behind
  rw [← spelled, r.name?_text_isSome] at named
  exact none ⟨front ++ spaces, c :: tail, (List.append_assoc ..).symm,
    ⟨front, spaces, rfl, isLeadWord_respelled.mp isLead, nonempty, blank⟩, named⟩

theorem isQueryNameStart_of_isSpace (blank : Text.isSpace c = true) :
    isQueryNameStart c = false := by
  refine Bool.eq_false_iff.mpr fun start => ?_
  rw [isSpace_of_starts (.inl start)] at blank
  cases blank

theorem wordEndsAt_of_isSpace (blank : Text.isSpace c = true) : wordEndsAt (some c) = true :=
  wordEndsAt_iff.mpr fun _ here => Option.some.inj here ▸ Text.isWordChar_of_isSpace blank

theorem wordEndsAt_respelled (c : Char) : wordEndsAt (some (r.letter c)) = wordEndsAt (some c) := by
  simp only [wordEndsAt, Option.any_some, r.word]

/-- In another spelling a text has the same references, in that spelling. -/
theorem Pieces.respelled (pieces : Pieces opens cs segs) (r : Respelling) :
    ∃ others, Pieces opens (r.text cs) others ∧ mentioned others = (mentioned segs).map r.text := by
  induction pieces with
  | nil => exact ⟨[], .nil, rfl⟩
  | @table cs lead reference rest segs clause later ih =>
    obtain ⟨lead', read⟩ := tableClause?_respelled clause r
    obtain ⟨others, pieces, same⟩ := ih
    obtain ⟨text, -, -, refers⟩ := tableClause?_eq_some_iff.mp clause
    obtain ⟨c, last, solid⟩ := getLast?_of_reference? refers
    refine ⟨.table lead' _ :: others, .table read ?_, congrArg (_ :: ·) same⟩
    rw [last] at pieces
    rwa [r.getLast?_text last solid, wordEndsAt_respelled]
  | @other opens c rest segs none later ih =>
    obtain ⟨others, pieces, same⟩ := ih
    rw [Respelling.text]
    by_cases blank : Text.isSpace c = true
    · rw [wordEndsAt_of_isSpace blank] at pieces
      rw [if_pos blank]
      split
      · -- The next space stands for this one as well.
        rename_i more
        refine ⟨others, pieces.reopen (fun d first => Bool.eq_false_iff.mpr fun start => ?_) opens,
          same⟩
        obtain ⟨e, tail, rfl, solid, -⟩ :=
          r.exists_of_head?_text first (isSpace_of_starts (.inl start))
        simp [solid] at more
      · exact ⟨.other ' ' :: others, .other (fun _ => tableClause?_eq_none fun d first => by
          cases first
          decide) pieces, same⟩
    · rw [if_neg blank]
      refine ⟨.other (r.letter c) :: others, .other (fun opened => ?_) ?_, same⟩
      · rw [← r.text_cons (Bool.eq_false_iff.mpr blank)]
        exact tableClause?_respelled_eq_none (none opened) r
      · rwa [wordEndsAt_respelled]

theorem mentioned_respelled (cs : List Char) (r : Respelling) :
    mentioned (segments (r.text cs)) = (mentioned (segments cs)).map r.text := by
  obtain ⟨others, pieces, same⟩ := (pieces_segments cs).respelled r
  rw [segments_eq_iff.mpr pieces, same]

end LakeSchema.Query
