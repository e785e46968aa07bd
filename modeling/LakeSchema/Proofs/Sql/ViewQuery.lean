import LakeSchema.Proofs.Sql.Comments
import LakeSchema.Proofs.Sql.Word
import LakeSchema.Proofs.Text.Cutting
import LakeSchema.Proofs.Text.Spaces

/-!
# Queries that pass the check

The check of a view query looks for semicolons, the first word and prohibited keywords in a copy of
the text without comments, and its comments need not be those of the text. An accepted text is a
single read-only query exactly if the check sees what matters of its code
(`isQuery_iff_sees`); a comment mark inside a literal can hide all the rest.
-/

namespace LakeSchema.Query

open Sql

/-- Comments, literals and names hide what they hold; a query has no dollar bodies. -/
def queryLexis : Lexis :=
  fun region _ => region != .body

/-- The code of a query. -/
def code (sql : String) : List Char :=
  shown queryLexis sql.toList

/-- The beginning of a query: at most one parenthesis and a keyword. -/
structure Opening (lead : List Char) : Prop where
  parts : ∃ blanks paren gap word, lead = blanks ++ paren ++ gap ++ word ∧
    (∀ c ∈ blanks, Text.isSpace c = true) ∧ (paren = [] ∨ paren = ['(']) ∧
    (∀ c ∈ gap, Text.isSpace c = true) ∧ (Spells "SELECT" word ∨ Spells "WITH" word)

/-- A text whose first word begins a query. -/
def Begins (text : List Char) : Prop :=
  ∃ lead rest, text = lead ++ rest ∧ Opening lead ∧ wordEndsAt rest.head? = true

/-- A single read-only query. -/
structure IsQuery (code : List Char) : Prop where
  single : ∀ (i j : Nat) c, i < j → code[i]? = some ';' → code[j]? = some c →
    c = ';' ∨ Text.isSpace c = true
  begins : Begins code
  readOnly : ∀ keyword ∈ prohibitedKeywords, ∀ n word, Spells keyword word → ¬WordAt code n word

/-- What has to be seen of the code: semicolons with something behind them, the first character of
every prohibited keyword, and nothing but code in front of the word that begins the query. -/
structure Sees (seen code : List Char) : Prop where
  separators : ∀ (i j : Nat) c, i < j → code[i]? = some ';' → code[j]? = some c → c ≠ ';' →
    Text.isSpace c = false → seen[i]? = some ';' ∧ seen[j]? = some c
  opening : ∀ lead rest, seen = lead ++ rest → Opening lead → wordEndsAt rest.head? = true →
    lead <+: code ∨ Begins code
  keywords : ∀ keyword ∈ prohibitedKeywords, ∀ n word, Spells keyword word → WordAt code n word →
    seen[n]? = code[n]?

variable {sql keyword : String} {text cs x z word lead : List Char} {c : Char} {n : Nat}

/-! ### The text that the check looks at -/

/-- A text as the check reads it: with single spaces, and without semicolons at its end. -/
def checked (cs : List Char) : List Char :=
  body (Text.trim (Text.collapseSpaces cs))

theorem checked_eq (cs : List Char) : checked cs =
    Text.dropEndWhile Text.isSpace (Text.dropEndWhile (· == ';')
      (Text.dropEndWhile Text.isSpace (Text.trimStart (Text.collapseSpaces cs)))) :=
  rfl

theorem problem?_eq_none (accepted : problem? sql = none) :
    ';' ∉ checked (Query.seen sql.toList) ∧ startsAsQuery (checked (Query.seen sql.toList)) = true ∧
      findKeyword? prohibitedKeywords none (checked (Query.seen sql.toList)) = none := by
  rw [problem?, clean_eq] at accepted
  split at accepted
  · cases accepted
  split at accepted
  · cases accepted
  split at accepted
  · cases accepted
  · rename_i single begins
    exact ⟨by simpa [checked] using single, by simpa [checked] using begins,
      Option.map_eq_none_iff.mp accepted⟩

theorem checked_append_word (solid : ∀ c ∈ word, Text.isSpace c = false ∧ (c == ';') = false)
    (nonempty : word ≠ []) : ∃ back, back <+: Text.collapseSpaces z ∧
      checked (x ++ word ++ z) = Text.trimStart (Text.collapseSpaces x) ++ word ++ back := by
  have spaces : ∀ c ∈ word, Text.isSpace c = false := fun c member => (solid c member).1
  have marks : ∀ c ∈ word, (c == ';') = false := fun c member => (solid c member).2
  rw [checked_eq, Text.collapseSpaces_append_word spaces nonempty, Text.trimStart,
    Text.dropWhile_append_word spaces nonempty, Text.dropEndWhile_append_word spaces nonempty,
    Text.dropEndWhile_append_word marks nonempty, Text.dropEndWhile_append_word spaces nonempty]
  exact ⟨_, ((Text.dropEndWhile_isPrefix _ _).trans (Text.dropEndWhile_isPrefix _ _)).trans
    (Text.dropEndWhile_isPrefix _ _), rfl⟩

/-- Nothing but spaces and semicolons is cut off at the end. -/
theorem eq_checked_append (cs : List Char) : ∃ tail,
    Text.collapseSpaces (Text.trimStart cs) = checked cs ++ tail ∧
      ∀ c ∈ tail, c = ';' ∨ Text.isSpace c = true := by
  rw [checked_eq, Text.trimStart_collapseSpaces]
  obtain ⟨first, split₁, blank₁⟩ :=
    Text.eq_dropEndWhile_append Text.isSpace (Text.collapseSpaces (Text.trimStart cs))
  generalize Text.dropEndWhile Text.isSpace (Text.collapseSpaces (Text.trimStart cs)) = a at split₁ ⊢
  obtain ⟨second, split₂, marks⟩ := Text.eq_dropEndWhile_append (· == ';') a
  generalize Text.dropEndWhile (· == ';') a = b at split₂ ⊢
  obtain ⟨third, split₃, blank₃⟩ := Text.eq_dropEndWhile_append Text.isSpace b
  refine ⟨third ++ second ++ first, ?_, fun c member => ?_⟩
  · rw [split₁, split₂]
    nth_rewrite 1 [split₃]
    simp only [List.append_assoc]
  · rcases List.mem_append.mp member with member | member
    · rcases List.mem_append.mp member with member | member
      · exact .inr (blank₃ c member)
      · exact .inl (beq_iff_eq.mp (marks c member))
    · exact .inr (blank₁ c member)

theorem mem_checked {i j : Nat} (order : i < j) (mark : cs[i]? = some ';') (later : cs[j]? = some c)
    (other : c ≠ ';') (solid : Text.isSpace c = false) : ';' ∈ checked cs := by
  obtain ⟨bound, rfl⟩ := List.getElem?_eq_some_iff.mp later
  have split : cs = cs.take j ++ [cs[j]] ++ cs.drop (j + 1) := by simp
  have front : ';' ∈ cs.take j := List.mem_of_getElem? ((List.getElem?_take_of_lt order).trans mark)
  have alone : ∀ c ∈ [cs[j]], Text.isSpace c = false ∧ (c == ';') = false := by
    simpa using ⟨solid, other⟩
  obtain ⟨back, -, same⟩ :=
    checked_append_word (x := cs.take j) (z := cs.drop (j + 1)) alone (List.cons_ne_nil _ _)
  rw [split, same]
  have kept := Text.mem_dropWhile (p := Text.isSpace) (Text.mem_collapseSpaces front rfl) rfl
  exact List.mem_append_left _ (List.mem_append_left _ kept)

/-! ### Words -/

theorem isWordChar_of_spells (upper : keyword.toList.all Char.isUpper = true)
    (spells : Spells keyword word) (member : c ∈ word) : Text.isWordChar c = true :=
  isWordChar_of_isQueryNamePart
    (isQueryNamePart_of_start (isQueryNameStart_of_spells upper spells member))

theorem solid_of_isWordChar (letter : Text.isWordChar c = true) :
    Text.isSpace c = false ∧ (c == ';') = false :=
  ⟨Text.isSpace_of_isWordChar letter, beq_false_of_ne (ne_of_isWordChar letter rfl)⟩

theorem ne_nil_of_spells (nonempty : keyword.toList ≠ []) (spells : Spells keyword word) :
    word ≠ [] := by
  rintro rfl
  exact nonempty (List.length_eq_zero_iff.mp spells.length_eq)

theorem prohibitedKeywords_upper : ∀ keyword ∈ prohibitedKeywords,
    keyword.toList.all Char.isUpper = true ∧ keyword.toList ≠ [] := by
  decide

/-- A keyword that is seen by itself is found. -/
theorem findKeyword?_checked (member : keyword ∈ prohibitedKeywords) (spells : Spells keyword word)
    (stands : WordAt cs n word) : findKeyword? prohibitedKeywords none (checked cs) ≠ none := by
  obtain ⟨upper, letters⟩ := prohibitedKeywords_upper keyword member
  have nonempty := ne_nil_of_spells letters spells
  have bound : n ≤ cs.length := by
    obtain ⟨c, rest, rfl⟩ := List.exists_cons_of_ne_nil nonempty
    exact Nat.le_of_lt (List.getElem?_eq_some_iff.mp (stands.letters 0 c rfl)).1
  obtain ⟨front, back, rfl, -, opens, ends⟩ := stands.split bound
  obtain ⟨behind, isFront, same⟩ := checked_append_word (x := front) (z := back)
    (fun c member => solid_of_isWordChar (isWordChar_of_spells upper spells member)) nonempty
  rw [same]
  refine findKeyword?_ne_none member spells nonempty (wordEndsAt_iff.mpr fun c last => ?_)
    (wordEndsAt_iff.mpr fun c first => ?_)
  · rw [Option.or_none] at last
    rcases Text.getLast?_collapseSpaces (Text.getLast?_dropWhile last) with rfl | here
    · rfl
    · exact wordEndsAt_iff.mp opens c here
  · have whole : (Text.collapseSpaces back).head? = some c := by
      obtain ⟨rest, split⟩ := isFront
      rw [← split, List.head?_append, first]
      rfl
    rcases Text.head?_collapseSpaces whole with rfl | here
    · rfl
    · exact wordEndsAt_iff.mp ends c here

/-! ### The first word -/

theorem exists_of_startsAsQuery (starts : startsAsQuery cs = true) :
    ∃ paren gap word rest, cs = paren ++ (gap ++ word ++ rest) ∧ (paren = [] ∨ paren = ['(']) ∧
      (∀ c ∈ gap, Text.isSpace c = true) ∧ (Spells "SELECT" word ∨ Spells "WITH" word) ∧
      wordEndsAt rest.head? = true := by
  obtain ⟨paren, inner, split, shape, same⟩ : ∃ paren inner, cs = paren ++ inner ∧
      (paren = [] ∨ paren = ['(']) ∧ (Text.after? ['('] cs).getD cs = inner := by
    cases after : Text.after? ['('] cs with
    | none => exact ⟨[], cs, rfl, .inl rfl, rfl⟩
    | some rest => exact ⟨['('], rest, Text.after?_eq_some_iff.mp after, .inr rfl, rfl⟩
  have first : ∃ keyword, (keyword = "SELECT" ∨ keyword = "WITH") ∧
      (wholeKeyword? keyword (Text.trimStart inner)).isSome = true := by
    rw [startsAsQuery, same, Bool.or_eq_true] at starts
    exact starts.elim (fun select => ⟨_, .inl rfl, select⟩) fun with' => ⟨_, .inr rfl, with'⟩
  obtain ⟨keyword, known, found⟩ := first
  obtain ⟨⟨word, rest⟩, read⟩ := Option.isSome_iff_exists.mp found
  obtain ⟨tail, spells, ends⟩ := wholeKeyword?_eq_some_iff.mp read
  refine ⟨paren, inner.takeWhile Text.isSpace, word, rest, ?_, shape,
    fun c => List.mem_takeWhile_imp, ?_, ends⟩
  · rw [split, List.append_assoc, ← tail, Text.takeWhile_append_trimStart]
  · rcases known with rfl | rfl
    · exact .inl spells
    · exact .inr spells

theorem letters_of_opening (spells : Spells "SELECT" word ∨ Spells "WITH" word) :
    word ≠ [] ∧ ∀ c ∈ word, Text.isWordChar c = true := by
  rcases spells with spells | spells
  · exact ⟨ne_nil_of_spells (by decide) spells, fun c => isWordChar_of_spells (by decide) spells⟩
  · exact ⟨ne_nil_of_spells (by decide) spells, fun c => isWordChar_of_spells (by decide) spells⟩

theorem begins_of_startsAsQuery (starts : startsAsQuery (checked cs) = true) : Begins cs := by
  obtain ⟨paren, gap, word, rest, split, shape, blank, spells, ends⟩ := exists_of_startsAsQuery starts
  obtain ⟨nonempty, letters⟩ := letters_of_opening spells
  have solid : ∀ c ∈ word, Text.isSpace c = false := fun c member =>
    Text.isSpace_of_isWordChar (letters c member)
  obtain ⟨tail, whole, cut⟩ := eq_checked_append cs
  rw [split, List.append_assoc] at whole
  obtain ⟨z, first, behind⟩ := Text.exists_of_collapseSpaces_eq (by
    rintro c member
    rcases shape with rfl | rfl
    · cases member
    · rw [List.mem_singleton.mp member]
      rfl) whole
  have trimmed : Text.collapseSpaces (Text.trimStart z) = word ++ (rest ++ tail) := by
    obtain ⟨c, letters, rfl⟩ := List.exists_cons_of_ne_nil nonempty
    have stops : ¬Text.isSpace c = true := by simp [solid c List.mem_cons_self]
    rw [← Text.trimStart_collapseSpaces, behind, Text.trimStart, List.append_assoc,
      List.append_assoc, List.dropWhile_append_of_pos blank, List.cons_append,
      List.dropWhile_cons_of_neg stops]
  obtain ⟨y, second, final⟩ := Text.exists_of_collapseSpaces_eq solid trimmed
  refine ⟨cs.takeWhile Text.isSpace ++ paren ++ z.takeWhile Text.isSpace ++ word, y, ?_,
    ⟨⟨_, paren, _, word, rfl, fun c => List.mem_takeWhile_imp, shape,
      fun c => List.mem_takeWhile_imp, spells⟩⟩, ?_⟩
  · simp only [List.append_assoc]
    rw [← second, Text.takeWhile_append_trimStart, ← first, Text.takeWhile_append_trimStart]
  · -- What is behind the word in the text is behind it for the check, or is cut off.
    refine wordEndsAt_iff.mpr fun c next => Bool.eq_false_iff.mpr fun letter => ?_
    obtain ⟨more, rfl⟩ := List.head?_eq_some_iff.mp next
    rw [Text.collapseSpaces_cons (Text.isSpace_of_isWordChar letter)] at final
    cases rest with
    | nil =>
      obtain ⟨space, mark⟩ := solid_of_isWordChar letter
      rcases cut c (by rw [List.nil_append] at final; exact final ▸ List.mem_cons_self)
        with rfl | blank
      · cases mark
      · rw [blank] at space
        cases space
    | cons d rest =>
      obtain ⟨rfl, -⟩ := List.cons.inj final
      exact ne_of_isWordChar letter (wordEndsAt_iff.mp ends c rfl) rfl

/-- The word that ends an opening ends in every mask that begins with the opening. -/
theorem Opening.wordEndsAt {rest other : List Char} (opening : Opening lead)
    (masksA : Masks text (lead ++ rest)) (masksB : Masks text (lead ++ other))
    (ends : wordEndsAt rest.head? = true) : wordEndsAt other.head? = true := by
  obtain ⟨blanks, paren, gap, word, rfl, -, -, -, spells⟩ := opening
  obtain ⟨nonempty, letters⟩ := letters_of_opening spells
  obtain ⟨front, c, rfl⟩ := (List.eq_nil_or_concat word).resolve_left nonempty
  have split : ∀ cs, blanks ++ paren ++ gap ++ front.concat c ++ cs =
      (blanks ++ paren ++ gap ++ front) ++ c :: cs := by simp
  rw [split] at masksA masksB
  exact masksA.wordEndsAt masksB (letters c (by simp)) ends

/-- A text that passes the check is a single read-only query exactly if the check sees enough of its
code. -/
theorem isQuery_iff_sees (accepted : problem? sql = none) :
    IsQuery (code sql) ↔ Sees (Query.seen sql.toList) (code sql) := by
  obtain ⟨single, starts, readOnly⟩ := problem?_eq_none accepted
  have masks := seen_masks sql.toList
  have codeMasks := shown_masks queryLexis sql.toList
  constructor
  · intro query
    refine ⟨fun i j c order mark later other solid => ?_, fun _ _ _ _ _ => .inr query.begins,
      fun keyword member n word spells stands => ?_⟩
    · rcases query.single i j c order mark later with same | blank
      · exact absurd same other
      · rw [blank] at solid
        cases solid
    · exact absurd stands (query.readOnly keyword member n word spells)
  · intro sees
    refine ⟨fun i j c order mark later => ?_, ?_, fun keyword member n word spells stands => ?_⟩
    · by_contra neither
      obtain ⟨other, solid⟩ := not_or.mp neither
      have solid := Bool.eq_false_iff.mpr solid
      obtain ⟨seenMark, seenLater⟩ := sees.separators i j c order mark later other solid
      exact single (mem_checked order seenMark seenLater other solid)
    · obtain ⟨lead, rest, split, opening, ends⟩ := begins_of_startsAsQuery starts
      rcases sees.opening lead rest split opening ends with ⟨other, same⟩ | begins
      · rw [split] at masks
        rw [← code.eq_1, ← same] at codeMasks
        exact ⟨lead, other, same.symm, opening, opening.wordEndsAt masks codeMasks ends⟩
      · exact begins
    · obtain ⟨upper, letters⟩ := prohibitedKeywords_upper keyword member
      have stands := codeMasks.wordAt masks (ne_nil_of_spells letters spells)
        (fun c => isWordChar_of_spells upper spells) stands
        (sees.keywords keyword member n word spells stands)
      exact findKeyword?_checked member spells stands readOnly

/-- It is enough to see the code and nothing else. -/
theorem Sees.refl (code : List Char) : Sees code code where
  separators _ _ _ _ mark later _ _ := ⟨mark, later⟩
  opening _ rest split _ _ := .inl ⟨rest, split.symm⟩
  keywords _ _ _ _ _ _ := rfl

theorem isQuery_commented : problem? "SELECT id FROM orders -- all orders" = none ∧
    IsQuery (code "SELECT id FROM orders -- all orders") := by
  have accepted : problem? "SELECT id FROM orders -- all orders" = none := by decide +kernel
  have same : Query.seen "SELECT id FROM orders -- all orders".toList =
      code "SELECT id FROM orders -- all orders" := by decide +kernel
  exact ⟨accepted, (isQuery_iff_sees accepted).mpr (same ▸ Sees.refl _)⟩

/-- The comment mark in the literal hides the second statement from the check. -/
theorem not_isQuery_markInLiteral : problem? "SELECT '--' ; DROP TABLE t" = none ∧
    ¬IsQuery (code "SELECT '--' ; DROP TABLE t") := by
  refine ⟨by decide +kernel, fun query => ?_⟩
  have later : (code "SELECT '--' ; DROP TABLE t")[14]? = some 'D' := by decide +kernel
  rcases query.single 12 14 'D' (by decide) (by decide +kernel) later with same | blank
  · exact absurd same (by decide)
  · exact absurd blank (by decide)

end LakeSchema.Query
