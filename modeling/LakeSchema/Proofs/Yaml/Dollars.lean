import LakeSchema.Yaml.Printer
import Mathlib.Data.List.Chain

/-!
# Dollar signs in YAML text

Whatever style a text gets, each of its dollar signs is written as it is, right behind the one in
front of it if there is one, and no other is written. So two stand in a row in a document exactly if
they do in one of the words that it was made of (`loneDollars_document_iff`).
-/

namespace LakeSchema.Yaml

/-- No two dollar signs stand in a row. -/
def LoneDollars (cs : List Char) : Prop :=
  cs.IsChain fun c d => ¬(c = '$' ∧ d = '$')

variable {a b cs : List Char} {indent : Nat} {afterBreak : Bool}

theorem loneDollars_cons {c : Char} :
    LoneDollars (c :: cs) ↔ (c = '$' → cs.head? ≠ some '$') ∧ LoneDollars cs := by
  rw [LoneDollars, List.isChain_cons]
  refine and_congr_left' ⟨fun apart here next => ?_, fun apart d next both => ?_⟩
  · exact apart '$' next ⟨here, rfl⟩
  · rw [next, both.2] at apart
    exact apart both.1 rfl

theorem loneDollars_cons_of_ne {c : Char} (other : c ≠ '$') :
    LoneDollars (c :: cs) ↔ LoneDollars cs := by
  rw [loneDollars_cons]
  exact and_iff_right fun here => absurd here other

theorem loneDollars_append (apart : a.getLast? ≠ some '$' ∨ b.head? ≠ some '$') :
    LoneDollars (a ++ b) ↔ LoneDollars a ∧ LoneDollars b := by
  rw [LoneDollars, List.isChain_append]
  refine and_congr_right fun _ => and_iff_left fun c last d first => ?_
  rintro ⟨rfl, rfl⟩
  exact apart.elim (fun other => other last) fun other => other first

theorem loneDollars_of_free (free : '$' ∉ a) : LoneDollars a := by
  induction a with
  | nil => exact .nil
  | cons c a ih =>
    rw [List.mem_cons, not_or] at free
    exact (loneDollars_cons_of_ne (Ne.symm free.1)).mpr (ih free.2)

theorem getLast?_of_free (free : '$' ∉ a) : a.getLast? ≠ some '$' :=
  fun last => free (List.mem_of_getLast? last)

theorem head?_of_free (free : '$' ∉ a) : a.head? ≠ some '$' :=
  fun first => free (List.mem_of_head? first)

/-- Text without dollar signs in front of another one. -/
theorem loneDollars_free_append (free : '$' ∉ a) : LoneDollars (a ++ b) ↔ LoneDollars b := by
  rw [loneDollars_append (.inl (getLast?_of_free free))]
  exact and_iff_right (loneDollars_of_free free)

theorem loneDollars_append_free (free : '$' ∉ b) : LoneDollars (a ++ b) ↔ LoneDollars a := by
  rw [loneDollars_append (.inr (head?_of_free free))]
  exact and_iff_left (loneDollars_of_free free)

theorem loneDollars_iff_occursIn : LoneDollars cs ↔ Text.occursIn ['$', '$'] cs = false := by
  induction cs with
  | nil => exact iff_of_true .nil rfl
  | cons c cs ih =>
    rw [loneDollars_cons, Text.occursIn, Bool.or_eq_false_iff, ih]
    refine and_congr_left' ?_
    have mark (d : Char) : ('$' == d) = false ↔ d ≠ '$' := by
      rw [beq_eq_false_iff_ne, ne_comm]
    cases cs with
    | nil => simp [List.isPrefixOf]
    | cons d cs =>
      rw [List.isPrefixOf, List.isPrefixOf, List.isPrefixOf, Bool.and_true, Bool.and_eq_false_iff,
        mark, mark, List.head?_cons, ne_eq, Option.some_inj, imp_iff_not_or]

/-! ### Styles -/

/-- What stands in front of a character at the beginning of a line. -/
theorem free_lead (afterBreak : Bool) (indent : Nat) :
    '$' ∉ (if afterBreak then spaces indent else []) := by
  split
  · intro member
    exact absurd (List.eq_of_mem_replicate member) (by decide)
  · exact List.not_mem_nil

theorem ne_dollar_of_isBreak {c : Char} (ends : isBreak c = true) : c ≠ '$' := by
  rintro rfl
  cases ends

/-- Between single quotes nothing is put in but behind a line break. -/
theorem head?_singleInside : (singleInside indent false cs).head? = cs.head? := by
  cases cs with
  | nil => rfl
  | cons c cs =>
    rw [singleInside, if_neg Bool.false_ne_true, List.nil_append]
    split
    · rfl
    · split
      · rename_i quote
        rw [beq_iff_eq.mp quote]
        rfl
      · rfl

theorem loneDollars_singleInside :
    LoneDollars (singleInside indent afterBreak cs) ↔ LoneDollars cs := by
  induction cs generalizing afterBreak with
  | nil =>
    rw [singleInside]
    exact iff_of_true (loneDollars_of_free (free_lead afterBreak indent)) .nil
  | cons c cs ih =>
    rw [singleInside]
    split
    · have other := ne_dollar_of_isBreak ‹_›
      rw [loneDollars_cons_of_ne other, loneDollars_cons_of_ne other, ih]
    · rw [List.append_assoc, loneDollars_free_append (free_lead afterBreak indent)]
      split
      · rename_i quote
        have quotes : '$' ∉ ['\'', '\''] := by decide
        rw [beq_iff_eq.mp quote, loneDollars_free_append quotes, ih,
          loneDollars_cons_of_ne (by decide)]
      · rw [List.singleton_append, loneDollars_cons, loneDollars_cons, head?_singleInside, ih]

theorem head?_literalLines : (literalLines indent false cs).head? = cs.head? := by
  cases cs with
  | nil => rfl
  | cons c cs =>
    rw [literalLines]
    split <;> rfl

theorem loneDollars_literalLines :
    LoneDollars (literalLines indent afterBreak cs) ↔ LoneDollars cs := by
  induction cs generalizing afterBreak with
  | nil => rfl
  | cons c cs ih =>
    rw [literalLines]
    split
    · have other := ne_dollar_of_isBreak ‹_›
      rw [loneDollars_cons_of_ne other, loneDollars_cons_of_ne other, ih]
    · rw [loneDollars_free_append (free_lead afterBreak indent), loneDollars_cons, loneDollars_cons,
        head?_literalLines, ih]

theorem free_chomping (cs : List Char) : '$' ∉ chomping cs := by
  unfold chomping
  split
  · split
    · decide
    · split
      · decide
      · split <;> decide
  · decide

theorem loneDollars_literalText : LoneDollars (literalText indent cs) ↔ LoneDollars cs := by
  have size : '$' ∉ (if cs.head?.any isEdge then ['2'] else []) := by split <;> decide
  rw [literalText, List.append_assoc, List.cons_append, loneDollars_cons_of_ne (by decide),
    loneDollars_free_append size, loneDollars_free_append (free_chomping cs),
    loneDollars_cons_of_ne (by decide), loneDollars_literalLines]

theorem ne_dollar_of_mem_toDigits {c : Char} (n : Nat) (member : c ∈ Nat.toDigits 16 n) :
    c.toUpper ≠ '$' := by
  have digits : ∀ d < 16, (Nat.digitChar d).toUpper ≠ '$' := by decide
  rw [Nat.toDigits_eq_if (by decide)] at member
  split at member
  · rw [List.mem_singleton.mp member]
    exact digits n ‹_›
  · rcases List.mem_append.mp member with before | last
    · exact ne_dollar_of_mem_toDigits (n / 16) before
    · rw [List.mem_singleton.mp last]
      exact digits _ (Nat.mod_lt n (by decide))

theorem free_hexPadded (width n : Nat) : '$' ∉ hexPadded width n := by
  intro member
  rcases List.mem_append.mp member with zeros | digits
  · exact absurd (List.eq_of_mem_replicate zeros) (by decide)
  · obtain ⟨c, digit, same⟩ := List.mem_map.mp digits
    exact ne_dollar_of_mem_toDigits n digit same

theorem free_shortEscape {c letter : Char} (short : shortEscape? c = some letter) : letter ≠ '$' := by
  rintro rfl
  unfold shortEscape? at short
  split at short <;> simp at short

/-- Any other character is escaped, if at all, by a text without dollar signs. -/
theorem free_escape {c : Char} (other : c ≠ '$') : escape c ≠ [] ∧ '$' ∉ escape c := by
  have backslash : '$' ≠ '\\' := by decide
  unfold escape
  split
  · exact ⟨List.cons_ne_nil _ _, by simpa using other.symm⟩
  · refine ⟨List.cons_ne_nil _ _, List.not_mem_cons_of_ne_of_not_mem backslash ?_⟩
    split
    · rename_i short
      simpa using (free_shortEscape short).symm
    · split
      · exact List.not_mem_cons_of_ne_of_not_mem (by decide) (free_hexPadded 2 _)
      · split
        · exact List.not_mem_cons_of_ne_of_not_mem (by decide) (free_hexPadded 4 _)
        · exact List.not_mem_cons_of_ne_of_not_mem (by decide) (free_hexPadded 8 _)

theorem loneDollars_flatMap_escape : LoneDollars (cs.flatMap escape) ↔ LoneDollars cs := by
  induction cs with
  | nil => rfl
  | cons c cs ih =>
    rw [List.flatMap_cons]
    by_cases here : c = '$'
    · subst here
      have itself : escape '$' = ['$'] := by decide
      have next : (cs.flatMap escape).head? = some '$' ↔ cs.head? = some '$' := by
        cases cs with
        | nil => rfl
        | cons d cs =>
          by_cases again : d = '$'
          · subst again
            rw [List.flatMap_cons, itself]
            rfl
          · obtain ⟨some, free⟩ := free_escape again
            rw [List.flatMap_cons, List.head?_append_of_ne_nil _ some, List.head?_cons]
            exact iff_of_false (head?_of_free free) (by simpa using again)
      rw [itself, List.singleton_append, loneDollars_cons, loneDollars_cons, ne_eq, next, ih]
    · rw [loneDollars_free_append (free_escape here).2, loneDollars_cons_of_ne here, ih]

theorem loneDollars_textScalar (indent : Nat) (simpleKey : Bool) (s : String) :
    LoneDollars (textScalar indent simpleKey s) ↔ LoneDollars s.toList := by
  have double : LoneDollars ('"' :: s.toList.flatMap escape ++ ['"']) ↔ LoneDollars s.toList := by
    rw [loneDollars_append_free (by decide), loneDollars_cons_of_ne (by decide),
      loneDollars_flatMap_escape]
  have single : LoneDollars ('\'' :: singleInside indent false s.toList ++ ['\'']) ↔
      LoneDollars s.toList := by
    rw [loneDollars_append_free (by decide), loneDollars_cons_of_ne (by decide),
      loneDollars_singleInside]
  unfold textScalar
  simp only
  split
  · split
    · exact loneDollars_literalText
    · exact double
  · split
    · rfl
    · split
      · exact single
      · exact double

/-! ### Layout -/

theorem free_newLine (indent : Nat) (text : List Char) : '$' ∉ newLine indent text := by
  have spaced : '$' ∉ spaces indent := free_lead true indent
  unfold newLine
  split
  · exact spaced
  · exact List.not_mem_cons_of_ne_of_not_mem (by decide) spaced

/-- Texts on lines of their own. -/
theorem loneDollars_newLine {first rest : List Char} :
    LoneDollars (first ++ newLine indent first ++ rest) ↔ LoneDollars first ∧ LoneDollars rest := by
  have apart : first.getLast? ≠ some '$' ∨ (newLine indent first ++ rest).head? ≠ some '$' := by
    unfold newLine
    split
    · rename_i broken
      refine .inl fun last => ?_
      rw [last] at broken
      cases broken
    · exact .inr (by simp)
  rw [List.append_assoc, loneDollars_append apart,
    loneDollars_free_append (free_newLine indent first)]

theorem loneDollars_lines (indent : Nat) (texts : List (List Char)) :
    LoneDollars (lines indent texts) ↔ ∀ text ∈ texts, LoneDollars text := by
  induction texts with
  | nil => exact iff_of_true .nil nofun
  | cons first texts ih =>
    cases texts with
    | nil => exact List.forall_mem_singleton.symm
    | cons second texts =>
      rw [lines, loneDollars_newLine, ih, List.forall_mem_cons (a := first)]
      exact List.cons_ne_nil _ _

/-- The text of a key ends in its mark. -/
theorem loneDollars_keyText_append {name : String} {rest : List Char} :
    LoneDollars (keyText indent name ++ rest) ↔ LoneDollars name.toList ∧ LoneDollars rest := by
  have mark : '$' ∉ [':'] := by decide
  unfold keyText
  split
  · rw [loneDollars_append (.inl (by simp)), loneDollars_append_free mark, loneDollars_textScalar]
  · simp only
    rw [loneDollars_append (.inl (by rw [List.getLast?_concat]; decide)), loneDollars_newLine,
      and_iff_left (loneDollars_of_free mark), loneDollars_free_append (by decide),
      loneDollars_textScalar]

mutual

/-- The words that a value is printed from. -/
def words : Json → List String
  | .null | .bool _ => []
  | .number n => [numberText n]
  | .string s => [s]
  | .array items => itemWords items
  | .object members => memberWords members

def itemWords : List Json → List String
  | [] => []
  | item :: rest => words item ++ itemWords rest

def memberWords : List (String × Json) → List String
  | [] => []
  | (name, value) :: rest => name :: words value ++ memberWords rest

end

mutual

theorem loneDollars_inlineValue (indent : Nat) : (value : Json) →
    (LoneDollars (inlineValue indent value) ↔ ∀ word ∈ words value, LoneDollars word.toList)
  | .null => iff_of_true (loneDollars_of_free (a := " null".toList) (by decide)) nofun
  | .bool true => iff_of_true (loneDollars_of_free (a := " true".toList) (by decide)) nofun
  | .bool false => iff_of_true (loneDollars_of_free (a := " false".toList) (by decide)) nofun
  | .number n => by
    rw [inlineValue, loneDollars_cons_of_ne (by decide), words, List.forall_mem_singleton]
  | .string s => by
    rw [inlineValue, loneDollars_cons_of_ne (by decide), loneDollars_textScalar, words,
      List.forall_mem_singleton]
  | .array [] => iff_of_true (loneDollars_of_free (a := " []".toList) (by decide)) nofun
  | .array (item :: items) => by
    rw [inlineValue, loneDollars_cons_of_ne (by decide), loneDollars_lines, words, forall_itemTexts]
  | .object [] => iff_of_true (loneDollars_of_free (a := " \x7b\x7d".toList) (by decide)) nofun
  | .object (member :: members) => by
    rw [inlineValue, loneDollars_cons_of_ne (by decide), loneDollars_lines, words, forall_memberTexts]

theorem forall_itemTexts (indent : Nat) : (items : List Json) →
    ((∀ text ∈ itemTexts indent items, LoneDollars text) ↔
      ∀ word ∈ itemWords items, LoneDollars word.toList)
  | [] => iff_of_true nofun nofun
  | item :: items => by
    rw [itemTexts, itemWords, List.forall_mem_cons, List.forall_mem_append,
      loneDollars_cons_of_ne (by decide), loneDollars_inlineValue, forall_itemTexts]

theorem forall_memberTexts (indent : Nat) : (members : List (String × Json)) →
    ((∀ text ∈ memberTexts indent members, LoneDollars text) ↔
      ∀ word ∈ memberWords members, LoneDollars word.toList)
  | [] => iff_of_true nofun nofun
  | (name, value) :: members => by
    unfold memberTexts
    simp only
    rw [memberWords, List.forall_mem_cons, List.cons_append, List.forall_mem_cons,
      List.forall_mem_append, forall_memberTexts indent members, loneDollars_keyText_append,
      and_assoc]
    refine and_congr_right fun _ => and_congr_left' ?_
    -- Under a simple key a list or an object begins on a new line.
    split
    · split
      · rw [loneDollars_free_append (free_newLine indent _), loneDollars_lines, forall_itemTexts,
          words]
      · rw [loneDollars_cons_of_ne (by decide), loneDollars_lines, forall_itemTexts, words]
    · split
      · rw [loneDollars_free_append (free_newLine _ _), loneDollars_lines, forall_memberTexts, words]
      · rw [loneDollars_cons_of_ne (by decide), loneDollars_lines, forall_memberTexts, words]
    · exact loneDollars_inlineValue (indent + 2) _

end

/-- Two dollar signs stand in a row in a document exactly if they do in a word of it. -/
theorem loneDollars_document_iff (members : Json.Members) :
    LoneDollars (document members).toList ↔
      ∀ word ∈ memberWords members, LoneDollars word.toList := by
  have ending (text : List Char) : '$' ∉ (if text.getLast?.any isBreak then [] else ['\n']) := by
    split <;> decide
  unfold document
  simp only
  rw [String.toList_ofList, loneDollars_append_free (ending _)]
  split
  · exact iff_of_true (loneDollars_of_free (by decide)) nofun
  · rw [loneDollars_lines, forall_memberTexts]

/-- A document ends with a line break. -/
theorem getLast?_document (members : Json.Members) :
    (document members).toList.getLast? ≠ some '$' := by
  have ends (text : List Char) :
      (text ++ if text.getLast?.any isBreak then [] else ['\n']).getLast? ≠ some '$' := by
    split
    · rename_i broken
      rw [List.append_nil]
      intro last
      rw [last] at broken
      cases broken
    · rw [List.getLast?_concat]
      decide
  unfold document
  simp only
  rw [String.toList_ofList]
  exact ends _

end LakeSchema.Yaml
