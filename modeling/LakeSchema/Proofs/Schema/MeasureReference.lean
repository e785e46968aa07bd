import LakeSchema.Proofs.Text.Cutting
import LakeSchema.Proofs.Text.TopLevel
import LakeSchema.Schema.Measure
import Mathlib.Data.List.Basic

/-!
# References to measures

A reference reaches from its opening to the first closing bracket, wherever the quotes around its name
end. So a reference to a measure by its quoted name is replaced by one to the name that the catalog knows
(`withCatalogNames_quoted_iff`) if the name holds no closing bracket. With one the text behind the
bracket is read on its own, and the closing quote is only taken away if a further reference begins there.
-/

namespace LakeSchema.Measure

variable {quote c : Char} {cs rest inner after lead front back piece : List Char} {rounds : Nat}

/-! ### References -/

/-- What a reference begins with. -/
def opening : List Char :=
  "MEASURE(".toList

theorem reference?_eq_some_iff : reference? cs = some (inner, after) ↔
    cs = opening ++ inner ++ ')' :: after ∧ inner ≠ [] ∧ ')' ∉ inner := by
  rw [reference?, Option.bind_eq_some_iff]
  constructor
  · rintro ⟨rest, opened, read⟩
    have whole := List.takeWhile_append_dropWhile (p := (· != ')')) (l := rest)
    have stops := Text.stops_dropWhile (· != ')') rest
    dsimp only at read
    split at read
    · rename_i mark after' behind
      rw [behind] at whole stops
      split at read
      · contradiction
      · rename_i filled
        cases read
        obtain rfl : mark = ')' := by simpa using stops mark rfl
        refine ⟨?_, by simpa using filled, fun closing => ?_⟩
        · rw [List.append_assoc, whole]
          exact Text.after?_eq_some_iff.mp opened
        · simpa using List.mem_takeWhile_imp closing
    · contradiction
  · rintro ⟨rfl, filled, whole⟩
    have all : ∀ c ∈ inner, (c != ')') = true := fun c member =>
      bne_iff_ne.mpr fun same => whole (same ▸ member)
    have stops : ∀ c ∈ (')' :: after).head?, (c != ')') = false := by simp
    refine ⟨inner ++ ')' :: after, by rw [List.append_assoc]; exact Text.after?_self _ _, ?_⟩
    simp only [Text.takeWhile_append_word all stops, Text.dropWhile_append_rest all stops]
    simp [filled]

theorem length_le_of_reference? (read : reference? (c :: rest) = some (inner, after)) :
    after.length ≤ rest.length := by
  have lengths := congrArg List.length (reference?_eq_some_iff.mp read).1
  simp only [List.length_cons, List.length_append] at lengths
  omega

/-- The text with every reference in its one form. -/
def normalised (cs : List Char) : List Char :=
  normalisedFrom cs.length cs

theorem withCatalogNames_eq (expr : String) :
    withCatalogNames expr = String.ofList (normalised expr.toList) := by
  rw [withCatalogNames, normalised, String.length_toList]

/-- Rounds that are left over change nothing. -/
theorem normalisedFrom_eq (enough : cs.length ≤ rounds) : normalisedFrom rounds cs = normalised cs := by
  induction rounds using Nat.strong_induction_on generalizing cs with
  | _ rounds ih =>
    cases cs with
    | nil => cases rounds <;> rfl
    | cons c rest =>
      obtain ⟨rounds, rfl⟩ : ∃ k, rounds = k + 1 := Nat.exists_eq_add_one.mpr (by simp at enough; omega)
      have fits : rest.length ≤ rounds := Nat.le_of_succ_le_succ enough
      rw [normalised, List.length_cons, normalisedFrom, normalisedFrom]
      split
      · rename_i inner after read
        have shorter := length_le_of_reference? read
        rw [ih rounds (Nat.lt_succ_self _) (shorter.trans fits)]
        by_cases same : rest.length = rounds
        · rw [same, ih rounds (Nat.lt_succ_self _) (same ▸ shorter)]
        · rw [ih rest.length (by omega) shorter]
      · rw [ih rounds (Nat.lt_succ_self _) fits, normalised]

theorem normalised_of_some (read : reference? (c :: rest) = some (inner, after)) :
    normalised (c :: rest) = opening ++ referencedName inner ++ ')' :: normalised after := by
  rw [normalised, List.length_cons, normalisedFrom, read]
  dsimp only
  rw [normalisedFrom_eq (length_le_of_reference? read)]
  rfl

theorem normalised_of_none (none : reference? (c :: rest) = none) :
    normalised (c :: rest) = c :: normalised rest := by
  rw [normalised, List.length_cons, normalisedFrom, none]
  rfl

/-! ### Beginnings of references -/

theorem not_mem_opening {mark : Char} (other : mark = ')' ∨ isQuote mark = true) : mark ∉ opening := by
  rintro member
  rcases other with rfl | quoted
  · exact absurd member (by decide)
  · have plain : ∀ c ∈ opening, isQuote c = false := Text.forall_of_all (by decide)
    rw [plain mark member] at quoted
    cases quoted

/-- References begin apart from each other. -/
theorem after?_append_opening (c : Char) (cs rest : List Char) :
    Text.after? opening (c :: cs ++ opening ++ rest) =
      (Text.after? opening (c :: cs)).map (· ++ opening ++ rest) := by
  have apart : 'M' ∉ opening.tail := by decide
  have begins : opening = 'M' :: opening.tail := rfl
  have later := Text.after?_append_mark apart cs (opening.tail ++ rest)
  rw [begins, List.append_assoc, List.cons_append, List.cons_append, Text.after?, Text.after?, later]
  split
  · simp
  · rfl

/-- What stands in front of the first reference that begins in a text, and behind its beginning. -/
def cutAtOpening? : List Char → Option (List Char × List Char)
  | [] => none
  | c :: rest =>
    match Text.after? opening (c :: rest) with
    | some inner => some ([], inner)
    | none => (cutAtOpening? rest).map fun (lead, inner) => (c :: lead, inner)

theorem cutAtOpening?_of_some (opened : Text.after? opening (c :: rest) = some inner) :
    cutAtOpening? (c :: rest) = some ([], inner) := by
  rw [cutAtOpening?, opened]

theorem cutAtOpening?_of_none (unopened : Text.after? opening (c :: rest) = none) :
    cutAtOpening? (c :: rest) =
      (cutAtOpening? rest).map fun (lead, inner) => (c :: lead, inner) := by
  rw [cutAtOpening?, unopened]

theorem eq_of_cutAtOpening? (cut : cutAtOpening? cs = some (lead, inner)) :
    cs = lead ++ opening ++ inner := by
  induction cs generalizing lead with
  | nil => contradiction
  | cons c cs ih =>
    cases opened : Text.after? opening (c :: cs) with
    | some behind =>
      rw [cutAtOpening?_of_some opened] at cut
      cases cut
      exact Text.after?_eq_some_iff.mp opened
    | none =>
      rw [cutAtOpening?_of_none opened] at cut
      obtain ⟨⟨front, back⟩, later, same⟩ := Option.map_eq_some_iff.mp cut
      cases same
      rw [ih later]
      rfl

/-- The cut comes no later than any place where a reference begins. -/
theorem cutAtOpening?_append (front rest : List Char) : ∃ lead inner,
    cutAtOpening? (front ++ opening ++ rest) = some (lead, inner) ∧ lead.length ≤ front.length := by
  induction front with
  | nil => exact ⟨[], rest, cutAtOpening?_of_some (Text.after?_self opening rest), le_rfl⟩
  | cons c front ih =>
    obtain ⟨lead, inner, cut, least⟩ := ih
    cases opened : Text.after? opening (c :: front ++ opening ++ rest) with
    | some behind => exact ⟨[], behind, cutAtOpening?_of_some opened, Nat.zero_le _⟩
    | none =>
      refine ⟨c :: lead, inner, ?_, Nat.succ_le_succ least⟩
      exact (cutAtOpening?_of_none opened).trans (congrArg (Option.map _) cut)

/-- What stands behind the first beginning of a reference does not matter to the cut. -/
theorem cutAtOpening?_congr (cut : cutAtOpening? cs = some (lead, inner)) (rest : List Char) :
    cutAtOpening? (lead ++ opening ++ rest) = some (lead, rest) := by
  induction cs generalizing lead with
  | nil => contradiction
  | cons c cs ih =>
    cases opened : Text.after? opening (c :: cs) with
    | some behind =>
      rw [cutAtOpening?_of_some opened] at cut
      cases cut
      exact cutAtOpening?_of_some (Text.after?_self opening rest)
    | none =>
      have whole := eq_of_cutAtOpening? cut
      rw [cutAtOpening?_of_none opened] at cut
      obtain ⟨⟨front, back⟩, later, same⟩ := Option.map_eq_some_iff.mp cut
      cases same
      rw [whole, after?_append_opening, Option.map_eq_none_iff] at opened
      have unopened : Text.after? opening (c :: front ++ opening ++ rest) = none := by
        rw [after?_append_opening, opened]
        rfl
      exact (cutAtOpening?_of_none unopened).trans (congrArg (Option.map _) (ih later))

/-- No reference begins with what is appended. -/
theorem cutAtOpening?_concat (other : isQuote quote = true) (cs : List Char) :
    cutAtOpening? (cs ++ [quote]) =
      (cutAtOpening? cs).map fun (lead, inner) => (lead, inner ++ [quote]) := by
  have free := not_mem_opening (.inr other)
  induction cs with
  | nil =>
    have unopened := Text.after?_append_mark free [] []
    rw [List.nil_append] at unopened ⊢
    rw [cutAtOpening?_of_none unopened]
    rfl
  | cons c cs ih =>
    have same := Text.after?_append_mark free (c :: cs) []
    cases opened : Text.after? opening (c :: cs) with
    | some behind =>
      rw [opened] at same
      rw [cutAtOpening?_of_some opened]
      exact cutAtOpening?_of_some same
    | none =>
      rw [opened] at same
      rw [cutAtOpening?_of_none opened]
      refine (cutAtOpening?_of_none same).trans ((congrArg (Option.map _) ih).trans ?_)
      cases cutAtOpening? cs <;> rfl

/-! ### Texts without references -/

/-- No reference stands in the text. -/
def Unreferring (cs : List Char) : Prop :=
  ∀ front inner back, cs = front ++ opening ++ inner ++ ')' :: back → ')' ∉ inner → inner = []

/-- The text ends inside of a reference. -/
def EndsInside (cs : List Char) : Prop :=
  ∃ front inner, cs = front ++ opening ++ inner ∧ ')' ∉ inner

theorem Unreferring.tail (free : Unreferring (c :: cs)) : Unreferring cs :=
  fun front inner back same => free (c :: front) inner back (by rw [same]; rfl)

theorem Unreferring.reference? (free : Unreferring cs) : reference? cs = none := by
  cases read : Measure.reference? cs with
  | none => rfl
  | some parts =>
    obtain ⟨same, filled, whole⟩ := reference?_eq_some_iff.mp read
    exact absurd (free [] parts.1 parts.2 (by simpa using same) whole) filled

theorem Unreferring.normalised (free : Unreferring cs) : normalised cs = cs := by
  induction cs with
  | nil => rfl
  | cons c cs ih => rw [normalised_of_none free.reference?, ih free.tail]

theorem not_isInfix_opening (free : 'M' ∉ cs) : ¬opening <:+: cs := fun inside =>
  free (inside.subset (by decide))

theorem unreferring_of_free (free : 'M' ∉ cs) : Unreferring cs := fun front inner back same =>
  absurd ⟨front, inner ++ ')' :: back, by rw [same, List.append_assoc _ inner]⟩
    (not_isInfix_opening free)

theorem not_endsInside_of_free (free : 'M' ∉ cs) : ¬EndsInside cs := fun ⟨front, inner, same, _⟩ =>
  not_isInfix_opening free ⟨front, inner, same.symm⟩

theorem EndsInside.cons (ends : EndsInside cs) : EndsInside (c :: cs) := by
  obtain ⟨front, inner, rfl, whole⟩ := ends
  exact ⟨c :: front, inner, rfl, whole⟩

/-- No reference begins in a text that holds none and does not end inside of one. -/
theorem reference?_append_opening (free : Unreferring (c :: cs)) (ends : ¬EndsInside (c :: cs)) :
    reference? (c :: cs ++ opening ++ rest) = none := by
  cases read : reference? (c :: cs ++ opening ++ rest) with
  | none => rfl
  | some parts =>
    obtain ⟨inner, after⟩ := parts
    obtain ⟨same, filled, whole⟩ := reference?_eq_some_iff.mp read
    rw [List.append_assoc opening] at same
    have opened := Text.after?_eq_some_iff.mpr same
    rw [after?_append_opening] at opened
    obtain ⟨behind, begins, same⟩ := Option.map_eq_some_iff.mp opened
    have begins := Text.after?_eq_some_iff.mp begins
    cases cut : Text.cutAt? ')' behind with
    | none => exact absurd ⟨[], behind, begins, Text.cutAt?_eq_none_iff.mp cut⟩ ends
    | some parts =>
      obtain ⟨named, back⟩ := parts
      obtain ⟨rfl, unclosed⟩ := Text.cutAt?_eq_some_iff.mp cut
      -- The reference would be one of the text in front already.
      rw [List.append_assoc, List.append_assoc, List.cons_append,
        Text.append_mark_inj unclosed whole] at same
      refine absurd (free [] named back ?_ unclosed) (same.1 ▸ filled)
      rw [begins]
      simp

theorem normalised_append_opening (free : Unreferring cs) (ends : ¬EndsInside cs) :
    normalised (cs ++ opening ++ rest) = cs ++ normalised (opening ++ rest) := by
  induction cs with
  | nil => rfl
  | cons c cs ih =>
    have later := ih free.tail (mt EndsInside.cons ends)
    exact (normalised_of_none (reference?_append_opening free ends)).trans (congrArg (c :: ·) later)

/-! ### Names between quotes -/

/-- The characters other than spaces. -/
def spaceless (cs : List Char) : List Char :=
  cs.filter (· != ' ')

theorem catalogName_eq (name : String) : catalogName name = String.ofList (spaceless name.toList) :=
  rfl

theorem spaceless_append (a b : List Char) : spaceless (a ++ b) = spaceless a ++ spaceless b :=
  List.filter_append a b

theorem spaceless_eq_self_iff : spaceless cs = cs ↔ ' ' ∉ cs := by
  rw [spaceless, List.filter_eq_self]
  refine ⟨fun all space => by simpa using all ' ' space, fun free c member => ?_⟩
  exact bne_iff_ne.mpr fun same => free (same ▸ member)

theorem isSpace_of_isQuote (quoted : isQuote quote = true) : Text.isSpace quote = false := by
  simp only [isQuote, Bool.or_eq_true, beq_iff_eq] at quoted
  rcases quoted with (rfl | rfl) | rfl <;> rfl

theorem referencedName_eq (inner : List Char) : referencedName inner =
    spaceless (Text.dropEndWhile isQuote ((Text.trim inner).dropWhile isQuote)) :=
  rfl

theorem referencedName_subset (inner : List Char) : referencedName inner ⊆ inner := by
  rw [referencedName_eq]
  intro c member
  have trimmed := List.dropWhile_subset _
    ((Text.dropEndWhile_isPrefix isQuote _).subset (List.mem_of_mem_filter member))
  exact (Text.trim_isInfix inner).subset trimmed

section Quoted

variable {a w b : List Char} (quotes : ∀ c ∈ a, isQuote c = true) (quotes' : ∀ c ∈ b, isQuote c = true)
include quotes quotes'

/-- Quotes keep the white space behind them from being trimmed. -/
theorem trim_quoted (start : a = [] ∨ ∀ c ∈ w.head?, Text.isSpace c = false)
    (ends : b = [] ∨ ∀ c ∈ w.getLast?, Text.isSpace c = false) :
    Text.trim (a ++ w ++ b) = a ++ Text.trim w ++ b := by
  have solid : ∀ c ∈ a, Text.isSpace c = false := fun c member => isSpace_of_isQuote (quotes c member)
  have solid' : ∀ c ∈ b, Text.isSpace c = false := fun c member => isSpace_of_isQuote (quotes' c member)
  have ends' : b.reverse = [] ∨ ∀ c ∈ (Text.trimStart w).reverse.head?, Text.isSpace c = false := by
    refine ends.imp List.reverse_eq_nil_iff.mpr fun last c first => last c ?_
    rw [List.head?_reverse] at first
    exact Text.getLast?_dropWhile first
  have back := Text.dropWhile_framed (a := b.reverse) (b := a.reverse)
    (fun c member => solid' c (List.mem_reverse.mp member))
    (fun c member => solid c (List.mem_reverse.mp member)) ends'
  rw [Text.trim, Text.trimStart, Text.dropWhile_framed solid solid' start, Text.trimEnd,
    List.reverse_append, List.reverse_append, ← List.append_assoc]
  rw [Text.trimStart] at back
  rw [back]
  simp [Text.trim, Text.trimEnd, Text.trimStart]

theorem referencedName_quoted (bare : ∀ c ∈ w, isQuote c = false)
    (start : a = [] ∨ ∀ c ∈ w.head?, Text.isSpace c = false)
    (ends : b = [] ∨ ∀ c ∈ w.getLast?, Text.isSpace c = false) :
    referencedName (a ++ w ++ b) = spaceless (Text.trim w) := by
  have bare' : ∀ c ∈ Text.trim w, isQuote c = false := fun c member =>
    bare c ((Text.trim_isInfix w).subset member)
  rw [referencedName_eq, trim_quoted quotes quotes' start ends]
  generalize Text.trim w = name at bare' ⊢
  congr 1
  cases name with
  | nil =>
    have nothing : (a ++ b).dropWhile isQuote = [] :=
      List.dropWhile_eq_nil_iff.mpr fun c member => (List.mem_append.mp member).elim (quotes c) (quotes' c)
    rw [List.append_nil, nothing]
    rfl
  | cons c name =>
    have front : a.dropWhile isQuote = [] := List.dropWhile_eq_nil_iff.mpr quotes
    have back : Text.dropEndWhile isQuote b = [] := by
      rw [Text.dropEndWhile, List.reverse_eq_nil_iff, List.dropWhile_eq_nil_iff]
      exact fun c member => quotes' c (List.mem_reverse.mp member)
    have kept := Text.dropEndWhile_append_word (x := []) (z := b) bare' (List.cons_ne_nil c name)
    rw [Text.dropWhile_append_word bare' (List.cons_ne_nil c name), front, kept, back]
    simp

end Quoted

/-! ### Pieces in front of a closing bracket -/

/-- What a text becomes in front of a closing bracket. -/
def closed (piece : List Char) : List Char :=
  match cutAtOpening? piece with
  | some (lead, inner) => lead ++ opening ++ referencedName inner
  | none => piece

theorem closed_of_cut (cut : cutAtOpening? piece = some (lead, inner)) :
    closed piece = lead ++ opening ++ referencedName inner := by
  rw [closed, cut]

theorem closed_of_some (opened : Text.after? opening (c :: rest) = some inner) :
    closed (c :: rest) = opening ++ referencedName inner :=
  closed_of_cut (cutAtOpening?_of_some opened)

theorem closed_of_none (unopened : Text.after? opening (c :: rest) = none) :
    closed (c :: rest) = c :: closed rest := by
  rw [closed, closed, cutAtOpening?_of_none unopened]
  cases cutAtOpening? rest <;> rfl

theorem normalised_append (free : 'M' ∉ front) (rest : List Char) :
    normalised (front ++ rest) = front ++ normalised rest := by
  induction front with
  | nil => rfl
  | cons c front ih =>
    obtain ⟨other, free⟩ := List.ne_and_not_mem_of_not_mem_cons free
    have unread : reference? (c :: (front ++ rest)) = none := by
      cases read : reference? (c :: (front ++ rest)) with
      | none => rfl
      | some parts => exact absurd (List.cons.inj (reference?_eq_some_iff.mp read).1).1.symm other
    rw [List.cons_append, normalised_of_none unread, ih free, List.cons_append]

/-- A reference without a name is left as it is. -/
theorem normalised_unnamed (rest : List Char) :
    normalised (opening ++ ')' :: rest) = opening ++ ')' :: normalised rest := by
  have unread : reference? (opening ++ ')' :: rest) = none := by
    cases read : reference? (opening ++ ')' :: rest) with
    | none => rfl
    | some parts =>
      obtain ⟨same, filled, whole⟩ := reference?_eq_some_iff.mp read
      rw [List.append_assoc, List.append_cancel_left_eq] at same
      exact absurd ((Text.append_mark_inj List.not_mem_nil whole).mp same).1.symm filled
  have free : 'M' ∉ opening.tail ++ [')'] := by decide
  have later := normalised_append free rest
  rw [List.append_assoc, List.append_assoc] at later
  exact (normalised_of_none unread).trans (congrArg ('M' :: ·) later)

theorem normalised_closed (whole : ')' ∉ piece) (rest : List Char) :
    normalised (piece ++ ')' :: rest) = closed piece ++ ')' :: normalised rest := by
  induction piece with
  | nil => exact normalised_of_none rfl
  | cons c piece ih =>
    have later := ih (List.not_mem_of_not_mem_cons whole)
    have begins := Text.after?_append_mark (not_mem_opening (.inl rfl)) (c :: piece) rest
    cases opened : Text.after? opening (c :: piece) with
    | none =>
      rw [opened] at begins
      have unread : reference? (c :: piece ++ ')' :: rest) = none := by
        rw [reference?]
        exact congrArg (Option.bind · _) begins
      rw [closed_of_none opened]
      exact (normalised_of_none unread).trans (congrArg (c :: ·) later)
    | some inner =>
      have whole' := Text.after?_eq_some_iff.mp opened
      rw [closed_of_some opened]
      by_cases empty : inner = []
      · have unnamed : referencedName [] = [] := by decide
        rw [whole', empty, unnamed, List.append_nil, normalised_unnamed]
      · have read : reference? (c :: piece ++ ')' :: rest) = some (inner, rest) := by
          refine reference?_eq_some_iff.mpr ⟨by rw [whole'], empty, fun closing => whole ?_⟩
          rw [whole']
          exact List.mem_append_right _ closing
        exact normalised_of_some read

theorem not_mem_closed (whole : ')' ∉ piece) : ')' ∉ closed piece := by
  rw [closed]
  split
  · rename_i lead inner cut
    have same := eq_of_cutAtOpening? cut
    rw [same] at whole
    simp only [List.mem_append, not_or] at whole ⊢
    exact ⟨whole.1, fun closing => whole.2 (referencedName_subset inner closing)⟩
  · exact whole

/-- In front of a closing bracket the text becomes itself without spaces: none stand in front of its
reference, and no other white space stands around the name in that. -/
def Tidy (piece : List Char) : Prop :=
  match cutAtOpening? piece with
  | some (lead, inner) => ' ' ∉ lead ∧ spaceless (Text.trim inner) = spaceless inner
  | none => ' ' ∉ piece

theorem tidy_of_some (cut : cutAtOpening? piece = some (lead, inner)) :
    Tidy piece ↔ ' ' ∉ lead ∧ spaceless (Text.trim inner) = spaceless inner := by
  rw [Tidy, cut]

theorem tidy_of_none (uncut : cutAtOpening? piece = none) : Tidy piece ↔ ' ' ∉ piece := by
  rw [Tidy, uncut]

/-- The first reference of a text begins at one place, so that no space may go in front of it. -/
theorem opened_eq_spaceless_iff (cut : cutAtOpening? piece = some (lead, inner)) :
    lead ++ opening ++ rest = spaceless piece ↔ ' ' ∉ lead ∧ rest = spaceless inner := by
  have letters : spaceless opening = opening := by decide
  rw [eq_of_cutAtOpening? cut, spaceless_append, spaceless_append, letters]
  constructor
  · intro same
    obtain ⟨first, behind, other, least⟩ := cutAtOpening?_append (spaceless lead) (spaceless inner)
    rw [← same, cutAtOpening?_congr cut] at other
    obtain ⟨rfl, -⟩ := Prod.mk.inj (Option.some.inj other)
    have whole : spaceless lead = lead := List.filter_sublist.eq_of_length_le least
    rw [whole, List.append_cancel_left_eq] at same
    exact ⟨spaceless_eq_self_iff.mp whole, same⟩
  · rintro ⟨free, rfl⟩
    rw [spaceless_eq_self_iff.mpr free]

theorem closed_eq_spaceless_iff (bare : ∀ c ∈ piece, isQuote c = false) :
    closed piece = spaceless piece ↔ Tidy piece := by
  cases cut : cutAtOpening? piece with
  | none => rw [tidy_of_none cut, closed, cut, eq_comm, spaceless_eq_self_iff]
  | some parts =>
    obtain ⟨lead, inner⟩ := parts
    have within : ∀ c ∈ inner, isQuote c = false := fun c member => bare c (by
      rw [eq_of_cutAtOpening? cut]
      exact List.mem_append_right _ member)
    have name : referencedName inner = spaceless (Text.trim inner) := by
      have quoted := referencedName_quoted (List.forall_mem_nil _) (List.forall_mem_nil _) within
        (.inl rfl) (.inl rfl)
      rwa [List.nil_append, List.append_nil] at quoted
    rw [tidy_of_some cut, closed_of_cut cut, opened_eq_spaceless_iff cut, name]

theorem endsInside_of_cutAtOpening? (cut : cutAtOpening? piece = some (lead, inner))
    (whole : ')' ∉ piece) : EndsInside piece := by
  refine ⟨lead, inner, eq_of_cutAtOpening? cut, fun closing => whole ?_⟩
  rw [eq_of_cutAtOpening? cut]
  exact List.mem_append_right _ closing

theorem EndsInside.cutAtOpening? (ends : EndsInside piece) : cutAtOpening? piece ≠ none := by
  obtain ⟨front, inner, rfl, -⟩ := ends
  obtain ⟨_, _, cut, -⟩ := cutAtOpening?_append front inner
  rw [cut]
  exact Option.some_ne_none _

/-- The piece behind which the closing quote stands has to end inside of a reference, or the quote is
left in the text. -/
theorem closed_concat_eq_iff (quoted : isQuote quote = true) (bare : ∀ c ∈ piece, isQuote c = false)
    (whole : ')' ∉ piece) (last : ∀ c ∈ piece.getLast?, Text.isSpace c = false) :
    closed (piece ++ [quote]) = spaceless piece ↔ EndsInside piece ∧ Tidy piece := by
  have cut' := cutAtOpening?_concat quoted piece
  cases cut : cutAtOpening? piece with
  | none =>
    rw [cut] at cut'
    refine iff_of_false (fun same => ?_) fun ⟨ends, _⟩ => ends.cutAtOpening? cut
    rw [closed, cut'] at same
    have member : quote ∈ spaceless piece := same ▸ List.mem_append_right _ List.mem_cons_self
    have plain := bare quote (List.mem_of_mem_filter member)
    rw [plain] at quoted
    contradiction
  | some parts =>
    obtain ⟨lead, inner⟩ := parts
    rw [cut, Option.map_some] at cut'
    have parted := eq_of_cutAtOpening? cut
    have within : ∀ c ∈ inner, isQuote c = false := fun c member => bare c (by
      rw [parted]
      exact List.mem_append_right _ member)
    have last' : ∀ c ∈ inner.getLast?, Text.isSpace c = false := fun c ends => last c (by
      rw [parted, List.getLast?_append, ends]
      rfl)
    have name := referencedName_quoted (List.forall_mem_nil _)
      (List.forall_mem_singleton.mpr quoted) within (.inl rfl) (.inr last')
    rw [List.nil_append] at name
    rw [tidy_of_some cut, closed_of_cut cut', name, opened_eq_spaceless_iff cut,
      and_iff_right (endsInside_of_cutAtOpening? cut whole)]

/-! ### Names with brackets -/

theorem endsInside_append_mark : EndsInside (front ++ ')' :: back) ↔ EndsInside back := by
  constructor
  · rintro ⟨before, inner, same, whole⟩
    have free : ')' ∉ opening ++ inner := by
      rw [List.mem_append, not_or]
      exact ⟨not_mem_opening (.inl rfl), whole⟩
    rw [List.append_assoc] at same
    rcases List.append_eq_append_iff.mp same with ⟨more, -, behind⟩ | ⟨more, -, behind⟩
    · cases more with
      | nil =>
        have first : ')' = 'M' := (List.cons.inj behind).1
        contradiction
      | cons c more =>
        have same := (List.cons.inj behind).2
        exact ⟨more, inner, same.trans (List.append_assoc more opening inner).symm, whole⟩
    · exact absurd (behind ▸ List.mem_append_right more List.mem_cons_self) free
  · rintro ⟨before, inner, rfl, whole⟩
    exact ⟨front ++ ')' :: before, inner, by simp, whole⟩

/-- What follows on the first closing bracket of a name. -/
theorem normalised_rest_iff (quoted : isQuote quote = true) (free : Unreferring after)
    {name : List Char} (bare : ∀ c ∈ name, isQuote c = false)
    (last : ∀ c ∈ name.getLast?, Text.isSpace c = false) :
    normalised (name ++ quote :: ')' :: after) = spaceless name ++ ')' :: after ↔
      EndsInside name ∧ ∀ piece ∈ name.splitOn ')', Tidy piece := by
  cases cut : Text.cutAt? ')' name with
  | none =>
    have whole := Text.cutAt?_eq_none_iff.mp cut
    have quote' : ')' ∉ name ++ [quote] := by
      rw [List.mem_append, List.mem_singleton, not_or]
      refine ⟨whole, ?_⟩
      rintro rfl
      contradiction
    have piece := normalised_closed quote' after
    rw [List.append_assoc, List.singleton_append, free.normalised] at piece
    rw [piece, List.append_cancel_right_eq, closed_concat_eq_iff quoted bare whole last,
      List.splitOn_eq_singleton whole, List.forall_mem_singleton]
  | some parts =>
    obtain ⟨front, back⟩ := parts
    obtain ⟨rfl, whole⟩ := Text.cutAt?_eq_some_iff.mp cut
    have bare' := List.forall_mem_append.mp bare
    have whole' : ')' ∉ spaceless front := fun closing => whole (List.mem_of_mem_filter closing)
    have last' : ∀ c ∈ back.getLast?, Text.isSpace c = false := fun c ends => last c (by
      rw [List.getLast?_append, List.getLast?_cons, ends]
      rfl)
    have later := normalised_rest_iff quoted free (List.forall_mem_cons.mp bare'.2).2 last'
    have spaces : spaceless (front ++ ')' :: back) = spaceless front ++ ')' :: spaceless back :=
      spaceless_append front (')' :: back)
    rw [List.append_assoc, List.cons_append, normalised_closed whole, spaces, List.append_assoc,
      List.cons_append, Text.append_mark_inj (not_mem_closed whole) whole', later,
      closed_eq_spaceless_iff bare'.1, endsInside_append_mark,
      List.splitOn_append_cons_self_of_not_mem whole, List.forall_mem_cons, and_left_comm]
termination_by name.length
decreasing_by
  rw [‹name = front ++ ')' :: back›, List.length_append, List.length_cons]
  omega

/-! ### References by quoted names -/

/-- A name that can be quoted: not blank, without outer white space and without quotes. -/
structure IsQuotable (name : String) : Prop where
  solid : Text.isBlank name = false
  trimmed : Text.trim name.toList = name.toList
  bare : ∀ c ∈ name.toList, isQuote c = false

/-- A reference to a measure by its name between quotes. -/
def quotedReference (quote : Char) (name : String) : String :=
  "MEASURE(" ++ String.singleton quote ++ name ++ String.singleton quote ++ ")"

/-- A reference to a measure by the name that the catalog knows. -/
def catalogReference (name : String) : String :=
  "MEASURE(" ++ catalogName name ++ ")"

theorem quotedReference_toList (quote : Char) (name : String) : (quotedReference quote name).toList =
    opening ++ quote :: (name.toList ++ [quote, ')']) := by
  have lead : "MEASURE(".toList = opening := rfl
  have bracket : ")".toList = [')'] := rfl
  simp only [quotedReference, String.toList_append, String.toList_singleton, lead, bracket,
    List.append_assoc, List.cons_append, List.nil_append]

theorem catalogReference_toList (name : String) : (catalogReference name).toList =
    opening ++ (spaceless name.toList ++ [')']) := by
  have lead : "MEASURE(".toList = opening := rfl
  have bracket : ")".toList = [')'] := rfl
  simp only [catalogReference, catalogName_eq, String.toList_append, String.toList_ofList, lead, bracket,
    List.append_assoc]

/-- The name loses its spaces and nothing else although it is read up to its first closing bracket
only: behind such brackets further references begin, and the quote at the end is taken for one of the
last of them. -/
structure Rewritable (name : List Char) : Prop where
  ends : EndsInside (opening ++ name)
  tidy : ∀ piece ∈ (opening ++ name).splitOn ')', Tidy piece

theorem IsQuotable.rewritable {name : String} (quotable : IsQuotable name) (whole : ')' ∉ name.toList) :
    Rewritable name.toList := by
  have free : ')' ∉ opening ++ name.toList := by
    rw [List.mem_append, not_or]
    exact ⟨not_mem_opening (.inl rfl), whole⟩
  refine ⟨⟨[], name.toList, rfl, whole⟩, ?_⟩
  have cut : cutAtOpening? (opening ++ name.toList) = some ([], name.toList) :=
    cutAtOpening?_of_some (Text.after?_self opening name.toList)
  rw [List.splitOn_eq_singleton free, List.forall_mem_singleton, tidy_of_some cut, quotable.trimmed]
  exact ⟨List.not_mem_nil, rfl⟩

theorem rewritable_append_mark (whole : ')' ∉ front) : Rewritable (front ++ ')' :: back) ↔
    spaceless (Text.trim front) = spaceless front ∧ EndsInside back ∧
      ∀ piece ∈ back.splitOn ')', Tidy piece := by
  have free : ')' ∉ opening ++ front := by
    rw [List.mem_append, not_or]
    exact ⟨not_mem_opening (.inl rfl), whole⟩
  have cut : cutAtOpening? (opening ++ front) = some ([], front) :=
    cutAtOpening?_of_some (Text.after?_self opening front)
  have first : Tidy (opening ++ front) ↔ spaceless (Text.trim front) = spaceless front := by
    rw [tidy_of_some cut, and_iff_right List.not_mem_nil]
  have both : Rewritable (front ++ ')' :: back) ↔ EndsInside (opening ++ front ++ ')' :: back) ∧
      ∀ piece ∈ (opening ++ front ++ ')' :: back).splitOn ')', Tidy piece := by
    rw [List.append_assoc]
    exact ⟨fun ⟨ends, tidy⟩ => ⟨ends, tidy⟩, fun ⟨ends, tidy⟩ => ⟨ends, tidy⟩⟩
  rw [both, endsInside_append_mark, List.splitOn_append_cons_self_of_not_mem free,
    List.forall_mem_cons, first, and_left_comm]

/-- A name with a bracket is only rewritable if a reference begins in the name itself. -/
theorem Rewritable.opened {name : List Char} (rewritable : Rewritable name) (bracket : ')' ∈ name) :
    opening <:+: name := by
  obtain ⟨⟨front, back⟩, cut⟩ := Option.ne_none_iff_exists'.mp
    (mt Text.cutAt?_eq_none_iff.mp (not_not.mpr bracket))
  obtain ⟨rfl, whole⟩ := Text.cutAt?_eq_some_iff.mp cut
  obtain ⟨before, inner, rfl, -⟩ := ((rewritable_append_mark whole).mp rewritable).2.1
  exact ⟨front ++ ')' :: before, inner, by simp⟩

theorem normalised_reference_iff (quoted : isQuote quote = true) {name : String}
    (quotable : IsQuotable name) (free : Unreferring after) :
    normalised (opening ++ quote :: (name.toList ++ quote :: ')' :: after)) =
        opening ++ spaceless name.toList ++ ')' :: after ↔ Rewritable name.toList := by
  have bare := quotable.bare
  obtain ⟨first, last⟩ := Text.trim_eq_self_iff.mp quotable.trimmed
  have quotes : ∀ c ∈ [quote], isQuote c = true := List.forall_mem_singleton.mpr quoted
  have unclosed : ∀ front : List Char, ')' ∉ front → ')' ∉ opening ++ quote :: front := by
    intro front whole
    have other : ')' ≠ quote := by
      rintro rfl
      contradiction
    rw [List.mem_append, List.mem_cons, not_or, not_or]
    exact ⟨not_mem_opening (.inl rfl), other, whole⟩
  have cutQuote : ∀ front : List Char,
      cutAtOpening? (opening ++ quote :: front) = some ([], quote :: front) := fun front =>
    cutAtOpening?_of_some (Text.after?_self opening (quote :: front))
  cases cut : Text.cutAt? ')' name.toList with
  | none =>
    have whole := Text.cutAt?_eq_none_iff.mp cut
    have quote' : ')' ∉ name.toList ++ [quote] := fun closing => by
      rcases List.mem_append.mp closing with inside | mark
      · exact whole inside
      · exact unclosed [] List.not_mem_nil (List.mem_append_right _ mark)
    have piece := normalised_closed (unclosed _ quote') after
    have named := referencedName_quoted quotes quotes bare (.inr first) (.inr last)
    rw [quotable.trimmed, List.singleton_append, List.cons_append] at named
    rw [closed_of_cut (cutQuote _), named, free.normalised, List.append_assoc, List.cons_append,
      List.append_assoc, List.singleton_append, List.nil_append] at piece
    exact iff_of_true piece (quotable.rewritable whole)
  | some parts =>
    obtain ⟨start, behind⟩ := parts
    obtain ⟨same, whole⟩ := Text.cutAt?_eq_some_iff.mp cut
    rw [same] at bare first last ⊢
    have bare' := List.forall_mem_append.mp bare
    have first' : ∀ c ∈ start.head?, Text.isSpace c = false := fun c begins => first c (by
      rw [List.head?_append, begins]
      rfl)
    have last' : ∀ c ∈ behind.getLast?, Text.isSpace c = false := fun c ends => last c (by
      rw [List.getLast?_append, List.getLast?_cons, ends]
      rfl)
    have piece := normalised_closed (unclosed _ whole) (behind ++ quote :: ')' :: after)
    have named := referencedName_quoted quotes (List.forall_mem_nil _) bare'.1 (.inr first') (.inl rfl)
    have later := normalised_rest_iff quoted free (List.forall_mem_cons.mp bare'.2).2 last'
    rw [List.append_nil, List.singleton_append] at named
    rw [closed_of_cut (cutQuote _), named, List.append_assoc, List.cons_append, List.nil_append,
      List.append_assoc] at piece
    have spaces : spaceless (start ++ ')' :: behind) = spaceless start ++ ')' :: spaceless behind :=
      spaceless_append start (')' :: behind)
    have text : opening ++ quote :: (start ++ ')' :: behind ++ quote :: ')' :: after) =
        opening ++ quote :: (start ++ ')' :: (behind ++ quote :: ')' :: after)) := by
      rw [List.append_assoc, List.cons_append]
    have trimmed : ')' ∉ spaceless (Text.trim start) := fun closing =>
      whole ((Text.trim_isInfix start).subset (List.mem_of_mem_filter closing))
    have bracket : ')' ∉ spaceless start := fun closing => whole (List.mem_of_mem_filter closing)
    rw [text, piece, spaces, rewritable_append_mark whole, List.append_assoc opening,
      List.append_cancel_left_eq, List.append_assoc, List.cons_append,
      Text.append_mark_inj trimmed bracket, later]

/-- In a text without other references a reference to a measure by its quoted name is replaced by one to
the name that the catalog knows, and nothing else is changed, if the name holds no closing bracket and
otherwise exactly if it can be rewritten all the same. -/
theorem withCatalogNames_quoted_iff (quoted : isQuote quote = true) {name before after : String}
    (quotable : IsQuotable name) (front : Unreferring before.toList)
    (ends : ¬EndsInside before.toList) (back : Unreferring after.toList) :
    (withCatalogNames (before ++ quotedReference quote name ++ after) =
        before ++ catalogReference name ++ after ↔ Rewritable name.toList) ∧
      (')' ∉ name.toList → withCatalogNames (before ++ quotedReference quote name ++ after) =
        before ++ catalogReference name ++ after) := by
  have rewritten : withCatalogNames (before ++ quotedReference quote name ++ after) =
      before ++ catalogReference name ++ after ↔ Rewritable name.toList := by
    rw [← normalised_reference_iff quoted quotable back, withCatalogNames_eq, ← String.toList_inj]
    have source : (before ++ quotedReference quote name ++ after).toList =
        before.toList ++ opening ++ quote :: (name.toList ++ quote :: ')' :: after.toList) := by
      simp only [String.toList_append, quotedReference_toList, List.append_assoc, List.cons_append,
        List.nil_append]
    have target : (before ++ catalogReference name ++ after).toList =
        before.toList ++ (opening ++ spaceless name.toList ++ ')' :: after.toList) := by
      simp only [String.toList_append, catalogReference_toList, List.append_assoc, List.cons_append,
        List.nil_append]
    rw [String.toList_ofList, source, target, normalised_append_opening front ends,
      List.append_cancel_left_eq]
  exact ⟨rewritten, fun whole => rewritten.mpr (quotable.rewritable whole)⟩

/-- A name with brackets can be rewritten by chance. -/
example : withCatalogNames "MEASURE(')MEASURE(b')" = "MEASURE()MEASURE(b)" := by decide

theorem netRevenue_rewritten : IsQuotable "Net Revenue, 2024" ∧
    withCatalogNames "1 - MEASURE('Net Revenue, 2024') / 2" = "1 - MEASURE(NetRevenue,2024) / 2" := by
  have quotable : IsQuotable "Net Revenue, 2024" :=
    ⟨by decide, by decide, Text.forall_of_all (by decide)⟩
  have quoted : isQuote '\'' = true := rfl
  have front : 'M' ∉ "1 - ".toList := by decide
  have back : 'M' ∉ " / 2".toList := by decide
  refine ⟨quotable, ?_⟩
  exact (withCatalogNames_quoted_iff quoted quotable (unreferring_of_free front)
    (not_endsInside_of_free front) (unreferring_of_free back)).2 (by decide)

/-- The reference ends inside of the name, and the quote behind the name is left over. -/
theorem bracketedRevenue_not_rewritten : IsQuotable "Revenue (USD)" ∧
    Unreferring "".toList ∧ ¬EndsInside "".toList ∧ Unreferring " / 2".toList ∧
    "" ++ catalogReference "Revenue (USD)" ++ " / 2" = "MEASURE(Revenue(USD)) / 2" ∧
    withCatalogNames ("" ++ quotedReference '\'' "Revenue (USD)" ++ " / 2") =
      "MEASURE(Revenue(USD)') / 2" :=
  ⟨⟨by decide, by decide, Text.forall_of_all (by decide)⟩, unreferring_of_free (by decide),
    not_endsInside_of_free (by decide), unreferring_of_free (by decide), by decide, by decide⟩

end LakeSchema.Measure
