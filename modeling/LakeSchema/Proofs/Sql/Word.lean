import LakeSchema.Proofs.Sql.Lexis
import LakeSchema.Proofs.Text.WordChar
import Mathlib.Data.List.Forall2

/-!
# Words of a text

A word stands at a position of a text when no word character is next to it on either side. Two
texts that mask the same one share the words whose first characters they share (`Masks.wordAt`).
-/

namespace LakeSchema.Sql

variable {letter c d : Char} {keyword : String} {keywords : List String} {before : Option Char}
  {cs word letters found rest text form front back : List Char} {n : Nat}

/-- A word that is a keyword in any case. -/
def Spells (keyword : String) (word : List Char) : Prop :=
  List.Forall₂ (fun letter c => isLetter letter c = true) keyword.toList word

/-- A word at a position, with no character of a word in front of it or behind it. -/
structure WordAt (text : List Char) (n : Nat) (word : List Char) : Prop where
  letters : ∀ (i : Nat) c, word[i]? = some c → text[n + i]? = some c
  opens : ∀ (m : Nat) c, n = m + 1 → text[m]? = some c → Text.isWordChar c = false
  ends : ∀ c, text[n + word.length]? = some c → Text.isWordChar c = false

theorem wordEndsAt_iff : wordEndsAt before = true ↔
    ∀ c, before = some c → Text.isWordChar c = false := by
  cases before <;> simp [wordEndsAt]

theorem WordAt.split (stands : WordAt text n word) (bound : n ≤ text.length) :
    ∃ front back, text = front ++ word ++ back ∧ front.length = n ∧
      wordEndsAt front.getLast? = true ∧ wordEndsAt back.head? = true := by
  obtain ⟨back, split⟩ : word <+: text.drop n := List.prefix_iff_getElem?.mpr fun i bound => by
    rw [List.getElem?_drop]
    exact stands.letters i _ (List.getElem?_eq_getElem bound)
  have length : (text.take n).length = n := List.length_take_of_le bound
  have whole : text = text.take n ++ word ++ back := by
    rw [List.append_assoc, split, List.take_append_drop]
  refine ⟨text.take n, back, whole, length, wordEndsAt_iff.mpr fun c last => ?_,
    wordEndsAt_iff.mpr fun c first => ?_⟩
  · rw [List.getLast?_eq_getElem?, length] at last
    obtain ⟨m, rfl⟩ : ∃ m, n = m + 1 := by
      cases n with
      | zero => simp at last
      | succ m => exact ⟨m, rfl⟩
    refine stands.opens m c rfl ?_
    rw [List.getElem?_take] at last
    simpa using last
  · refine stands.ends c ?_
    rw [whole, List.append_assoc, List.getElem?_append_right (by omega), length,
      Nat.add_sub_cancel_left, List.getElem?_append_right (Nat.le_refl _), Nat.sub_self,
      ← List.head?_eq_getElem?, first]

/-! ### Keywords -/

theorem keyword?_eq_some_iff : keyword? letters cs = some (found, rest) ↔
    cs = found ++ rest ∧ List.Forall₂ (fun letter c => isLetter letter c = true) letters found := by
  induction letters generalizing cs found with
  | nil =>
    simp only [keyword?, Option.some.injEq, Prod.mk.injEq, List.forall₂_nil_left_iff]
    constructor
    · rintro ⟨rfl, rfl⟩
      exact ⟨rfl, rfl⟩
    · rintro ⟨rfl, rfl⟩
      exact ⟨rfl, rfl⟩
  | cons letter letters ih =>
    cases cs with
    | nil =>
      refine iff_of_false nofun fun ⟨split, same⟩ => ?_
      obtain ⟨rfl, -⟩ := List.append_eq_nil_iff.mp split.symm
      cases same
    | cons c cs =>
      rw [keyword?]
      constructor
      · intro read
        split at read
        · rename_i here
          obtain ⟨⟨more, rest⟩, later, same⟩ := Option.map_eq_some_iff.mp read
          cases same
          obtain ⟨rfl, letters⟩ := ih.mp later
          exact ⟨rfl, .cons here letters⟩
        · cases read
      · rintro ⟨split, same⟩
        cases same with
        | @cons _ d _ more here later =>
          obtain ⟨rfl, tail⟩ := List.cons.inj split
          have read : keyword? letters cs = some (more, rest) := ih.mpr ⟨tail, later⟩
          rw [if_pos here, read]
          rfl

theorem wholeKeyword?_eq_some_iff : wholeKeyword? keyword cs = some (found, rest) ↔
    cs = found ++ rest ∧ Spells keyword found ∧ wordEndsAt rest.head? = true := by
  rw [wholeKeyword?, Option.filter_eq_some_iff, keyword?_eq_some_iff, and_assoc]
  rfl

theorem toUpper_of_not_ascii (beyond : ¬ c.toNat < 128) : c.toUpper = c := by
  unfold Char.toUpper
  refine dif_neg fun lower => ?_
  have bound : c.toNat ≤ 122 := lower.2
  omega

theorem isQueryNamePart_of_start (start : isQueryNameStart c = true) : isQueryNamePart c = true := by
  simp [isQueryNamePart, start]

/-- The characters of names are characters of words. -/
theorem isWordChar_of_isQueryNamePart (part : isQueryNamePart c = true) :
    Text.isWordChar c = true := by
  by_cases ascii : c.toNat < 128
  · exact Text.ascii_induct (motive := fun c => isQueryNamePart c = true → Text.isWordChar c = true)
      (by decide) ascii part
  · -- Beyond ASCII only the other forms of S and K belong to a name.
    have forms : (c.isUpper || c.isLower || c == '_' || c == 'ſ' || c.toNat == 0x212A ||
        c.isDigit) = true := part
    simp only [Bool.or_eq_true, beq_iff_eq] at forms
    rcases forms with ((((upper | lower) | rfl) | rfl) | kelvin) | digit
    · exact absurd (show c.toNat ≤ 90 from (of_decide_eq_true upper).2) (by omega)
    · have bound := (Bool.and_eq_true_iff.mp lower).2
      exact absurd (show c.toNat ≤ 122 from of_decide_eq_true bound) (by omega)
    · exact absurd (by decide) ascii
    · exact Text.isWordChar_longS
    · rw [← Char.ofNat_toNat c, kelvin]
      exact Text.isWordChar_kelvin
    · have bound := (Bool.and_eq_true_iff.mp digit).2
      exact absurd (show c.toNat ≤ 57 from of_decide_eq_true bound) (by omega)

/-- The letters of upper case keywords, in any form, are letters of names. -/
theorem isQueryNameStart_of_isLetter (upper : letter.isUpper = true)
    (same : isLetter letter c = true) : isQueryNameStart c = true := by
  have form : c.toUpper = letter → isQueryNameStart c = true := by
    rintro rfl
    by_cases ascii : c.toNat < 128
    · exact Text.ascii_induct
        (motive := fun c => c.toUpper.isUpper = true → isQueryNameStart c = true)
        (by decide) ascii upper
    · rw [toUpper_of_not_ascii ascii] at upper
      have bound : c.toNat ≤ 90 := (of_decide_eq_true upper).2
      omega
  rw [isLetter, Bool.or_eq_true, Bool.or_eq_true] at same
  rcases same with (same | longS) | kelvin
  · exact form (beq_iff_eq.mp same)
  · simp [isQueryNameStart, (Bool.and_eq_true_iff.mp longS).2]
  · simp [isQueryNameStart, (Bool.and_eq_true_iff.mp kelvin).2]

theorem isQueryNameStart_of_spells (upper : keyword.toList.all Char.isUpper = true)
    (spells : Spells keyword word) (member : c ∈ word) : isQueryNameStart c = true := by
  obtain ⟨i, bound, rfl⟩ := List.getElem_of_mem member
  have place : i < keyword.toList.length := spells.length_eq ▸ bound
  exact isQueryNameStart_of_isLetter (List.all_eq_true.mp upper _ (List.getElem_mem place))
    (spells.get place bound)

/-- A keyword that stands in a text by itself is found. -/
theorem findKeyword?_ne_none (member : keyword ∈ keywords) (spells : Spells keyword word)
    (nonempty : word ≠ []) (opens : wordEndsAt (front.getLast?.or before) = true)
    (ends : wordEndsAt back.head? = true) :
    findKeyword? keywords before (front ++ word ++ back) ≠ none := by
  induction front generalizing before with
  | nil =>
    obtain ⟨c, rest, rfl⟩ := List.exists_cons_of_ne_nil nonempty
    have here : wholeKeyword? keyword (c :: (rest ++ back)) = some (c :: rest, back) :=
      wholeKeyword?_eq_some_iff.mpr ⟨rfl, spells, ends⟩
    have some : (keywords.findSome? (wholeKeyword? · (c :: (rest ++ back)))).isSome = true :=
      List.findSome?_isSome_iff.mpr ⟨keyword, member, by rw [here]; rfl⟩
    obtain ⟨found, same⟩ := Option.isSome_iff_exists.mp some
    have opens : wordEndsAt before = true := opens
    rw [List.nil_append, List.cons_append, findKeyword?, if_pos opens, same]
    exact Option.some_ne_none _
  | cons d front ih =>
    have boundary : wordEndsAt (front.getLast?.or (some d)) = true := by
      rw [List.getLast?_cons] at opens
      cases last : front.getLast? <;> simpa [last] using opens
    rw [List.cons_append, List.cons_append, findKeyword?]
    intro none
    exact ih boundary (Option.or_eq_none_iff.mp none).2

/-! ### Masks of one text -/

variable {a b : List Char}

/-- What goes on behind a shared character of a word in one mask goes on in the other. -/
theorem Masks.behind (masksA : Masks text a) (masksB : Masks text b) (here : a[n]? = some c)
    (shared : b[n]? = some c) (next : a[n + 1]? = some d) (letterC : Text.isWordChar c = true)
    (letterD : Text.isWordChar d = true) : b[n + 1]? = some d :=
  (masksB.whole n c d (masksA.each n c here (ne_of_isWordChar letterC rfl))
    (masksA.each (n + 1) d next (ne_of_isWordChar letterD rfl)) letterC letterD).mp shared

/-- A word that ends behind a shared character ends there in both masks. -/
theorem Masks.wordEndsAt {other : List Char} (masksA : Masks text (front ++ c :: rest))
    (masksB : Masks text (front ++ c :: other)) (letter : Text.isWordChar c = true)
    (ends : wordEndsAt rest.head? = true) : wordEndsAt other.head? = true := by
  have here : ∀ cs, (front ++ c :: cs)[front.length]? = some c := by simp
  have behind : ∀ cs, (front ++ c :: cs)[front.length + 1]? = cs.head? := fun cs => by
    rw [List.getElem?_append_right (by omega), List.head?_eq_getElem?]
    simp
  refine wordEndsAt_iff.mpr fun d next => Bool.eq_false_iff.mpr fun goesOn => ?_
  have next := masksB.behind masksA (here other) (here rest) ((behind other).trans next) letter goesOn
  exact ne_of_isWordChar goesOn (wordEndsAt_iff.mp ends d ((behind rest).symm.trans next)) rfl

/-- A word that two masks of a text share in its first character is shared as a whole. -/
theorem Masks.wordAt (masksA : Masks text a) (masksB : Masks text b) (nonempty : word ≠ [])
    (inWord : ∀ c ∈ word, Text.isWordChar c = true) (stands : WordAt a n word)
    (first : b[n]? = a[n]?) : WordAt b n word := by
  have solid : ∀ i c, word[i]? = some c → Text.isWordChar c = true := fun i c here =>
    inWord c (List.mem_of_getElem? here)
  have shared : ∀ i c, word[i]? = some c → b[n + i]? = some c := by
    intro i
    induction i with
    | zero =>
      intro c here
      rw [Nat.add_zero, first]
      exact stands.letters 0 c here
    | succ i ih =>
      intro d next
      obtain ⟨c, here⟩ : ∃ c, word[i]? = some c := by
        have bound := (List.getElem?_eq_some_iff.mp next).1
        exact ⟨word[i], List.getElem?_eq_getElem (by omega)⟩
      exact masksA.behind masksB (stands.letters i c here) (ih c here) (stands.letters _ d next)
        (solid i c here) (solid _ d next)
  refine ⟨shared, fun m c place here => ?_, fun c here => ?_⟩ <;>
    refine Bool.eq_false_iff.mpr fun letter => ?_
  · -- In front of the word, a character of a word is in the text, thus in the other mask.
    obtain ⟨d, rest, rfl⟩ := List.exists_cons_of_ne_nil nonempty
    subst place
    have before := masksB.each m c here (ne_of_isWordChar letter rfl)
    have start := masksA.each _ d (stands.letters 0 d rfl) (ne_of_isWordChar (solid 0 d rfl) rfl)
    have shown := masksA.whole m c d before start letter (solid 0 d rfl)
    have blank := stands.opens m c rfl (shown.mpr (stands.letters 0 d rfl))
    exact ne_of_isWordChar letter blank rfl
  · have positive := List.length_pos_iff.mpr nonempty
    obtain ⟨last, same⟩ : ∃ last, word.length = last + 1 := ⟨word.length - 1, by omega⟩
    obtain ⟨d, final⟩ : ∃ d, word[last]? = some d := ⟨_, List.getElem?_eq_getElem (by omega)⟩
    have ends := stands.ends c
    rw [same] at here ends
    have goesOn := masksB.behind masksA (shared last d final) (stands.letters last d final) here
      (solid last d final) letter
    exact ne_of_isWordChar letter (ends goesOn) rfl

end LakeSchema.Sql
