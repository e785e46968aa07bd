import LakeSchema.Text.Words
import Mathlib.Data.List.TakeWhile

/-!
# Single spaces

Trimming, and writing one space for every run of white space, leave a word in the middle of a text
as it is and the texts around it apart.
-/

namespace LakeSchema.Text

variable {c d : Char} {cs x word z : List Char} {p : Char → Bool}

/-! ### Cutting at both ends -/

/-- The list without the characters at its end that satisfy `p`. -/
def dropEndWhile (p : Char → Bool) (cs : List Char) : List Char :=
  (cs.reverse.dropWhile p).reverse

theorem takeWhile_append_trimStart (cs : List Char) :
    cs.takeWhile isSpace ++ trimStart cs = cs :=
  List.takeWhile_append_dropWhile

theorem dropWhile_append_word (solid : ∀ c ∈ word, p c = false) (some : word ≠ []) :
    (x ++ word ++ z).dropWhile p = x.dropWhile p ++ word ++ z := by
  obtain ⟨c, rest, rfl⟩ := List.exists_cons_of_ne_nil some
  have stops : p c = false := solid c List.mem_cons_self
  rw [List.append_assoc, List.append_assoc, List.dropWhile_append]
  split
  · rename_i empty
    rw [List.isEmpty_iff.mp empty, List.nil_append, List.cons_append,
      List.dropWhile_cons_of_neg (by rw [stops]; exact Bool.false_ne_true)]
  · rfl

theorem dropEndWhile_append_word (solid : ∀ c ∈ word, p c = false) (some : word ≠ []) :
    dropEndWhile p (x ++ word ++ z) = x ++ word ++ dropEndWhile p z := by
  have back : ∀ c ∈ word.reverse, p c = false := fun c member => solid c (List.mem_reverse.mp member)
  rw [dropEndWhile, List.reverse_append, List.reverse_append, ← List.append_assoc,
    dropWhile_append_word back (List.reverse_ne_nil_iff.mpr some)]
  simp [dropEndWhile]

theorem dropEndWhile_isPrefix (p : Char → Bool) (cs : List Char) : dropEndWhile p cs <+: cs := by
  rw [← List.reverse_suffix, dropEndWhile, List.reverse_reverse]
  exact List.dropWhile_suffix p

theorem mem_dropWhile (member : c ∈ cs) (stays : p c = false) : c ∈ cs.dropWhile p := by
  rw [← List.takeWhile_append_dropWhile (p := p) (l := cs)] at member
  refine (List.mem_append.mp member).resolve_left fun front => ?_
  rw [List.mem_takeWhile_imp front] at stays
  cases stays

theorem getLast?_dropWhile (last : (cs.dropWhile p).getLast? = some c) : cs.getLast? = some c := by
  obtain ⟨front, split⟩ := List.dropWhile_suffix p (l := cs)
  rw [← split, List.getLast?_append, last]
  rfl

theorem eq_dropEndWhile_append (p : Char → Bool) (cs : List Char) :
    ∃ tail, cs = dropEndWhile p cs ++ tail ∧ ∀ c ∈ tail, p c = true := by
  refine ⟨(cs.reverse.takeWhile p).reverse, ?_, fun c member =>
    List.mem_takeWhile_imp (List.mem_reverse.mp member)⟩
  rw [dropEndWhile, ← List.reverse_append, List.takeWhile_append_dropWhile, List.reverse_reverse]

theorem takeWhile_append_word {rest : List Char} (all : ∀ c ∈ word, p c = true)
    (stops : ∀ c ∈ rest.head?, p c = false) : (word ++ rest).takeWhile p = word := by
  rw [List.takeWhile_append_of_pos all]
  cases rest with
  | nil => simp
  | cons c rest => simp [stops c rfl]

theorem dropWhile_append_rest {rest : List Char} (all : ∀ c ∈ word, p c = true)
    (stops : ∀ c ∈ rest.head?, p c = false) : (word ++ rest).dropWhile p = rest := by
  rw [List.dropWhile_append_of_pos all]
  cases rest with
  | nil => rfl
  | cons c rest => rw [List.dropWhile_cons_of_neg (by simp [stops c rfl])]

/-- What does not satisfy `p` keeps what is behind it, and itself at the end. -/
theorem dropWhile_framed {a b : List Char} (front : ∀ c ∈ a, p c = false) (back : ∀ c ∈ b, p c = false)
    (start : a = [] ∨ ∀ c ∈ word.head?, p c = false) :
    (a ++ word ++ b).dropWhile p = a ++ word.dropWhile p ++ b := by
  cases a with
  | nil =>
    cases b with
    | nil => simp
    | cons c b =>
      have kept := dropWhile_append_word (x := word) (z := []) back (List.cons_ne_nil c b)
      rwa [List.append_nil, List.append_nil] at kept
  | cons c a =>
    have whole := dropWhile_append_rest (List.forall_mem_nil _)
      (start.resolve_left (List.cons_ne_nil c a))
    rw [List.nil_append] at whole
    rw [whole, List.cons_append, List.cons_append, List.dropWhile_cons_of_neg]
    simp [front c List.mem_cons_self]

theorem stops_dropWhile (p : Char → Bool) (cs : List Char) :
    ∀ c ∈ (cs.dropWhile p).head?, p c = false := by
  intro c first
  have stops := List.head?_dropWhile_not p cs
  rw [Option.mem_def.mp first] at stops
  simpa using stops

/-! ### One space for a run -/

theorem collapseSpaces_cons (solid : isSpace c = false) :
    collapseSpaces (c :: cs) = c :: collapseSpaces cs := by
  simp [collapseSpaces, solid]

theorem collapseSpaces_append (solid : isSpace c = false) :
    collapseSpaces (x ++ c :: z) = collapseSpaces x ++ collapseSpaces (c :: z) := by
  induction x with
  | nil => rfl
  | cons d rest ih =>
    have next : (rest ++ c :: z).head?.any isSpace = rest.head?.any isSpace := by
      cases rest <;> simp [solid]
    rw [List.cons_append, collapseSpaces, collapseSpaces, next, ih]
    split
    · split <;> rfl
    · rfl

theorem collapseSpaces_word (solid : ∀ c ∈ word, isSpace c = false) :
    collapseSpaces (word ++ z) = word ++ collapseSpaces z := by
  induction word with
  | nil => rfl
  | cons c rest ih =>
    rw [List.cons_append, collapseSpaces_cons (solid c List.mem_cons_self),
      ih fun d member => solid d (List.mem_cons_of_mem c member), List.cons_append]

theorem collapseSpaces_append_word (solid : ∀ c ∈ word, isSpace c = false) (some : word ≠ []) :
    collapseSpaces (x ++ word ++ z) = collapseSpaces x ++ word ++ collapseSpaces z := by
  obtain ⟨c, rest, rfl⟩ := List.exists_cons_of_ne_nil some
  rw [List.append_assoc, List.cons_append, collapseSpaces_append (solid c List.mem_cons_self),
    ← List.cons_append, collapseSpaces_word solid, List.append_assoc]

/-- Only spaces are left of the white space. -/
theorem eq_space_of_mem_collapseSpaces (member : c ∈ collapseSpaces cs) (blank : isSpace c = true) :
    c = ' ' := by
  induction cs with
  | nil => cases member
  | cons d rest ih =>
    rw [collapseSpaces] at member
    split at member
    · split at member
      · exact ih member
      · exact (List.mem_cons.mp member).elim id ih
    · rename_i solid
      refine (List.mem_cons.mp member).elim (fun same => ?_) ih
      exact absurd (same ▸ blank) solid

theorem mem_collapseSpaces (member : c ∈ cs) (solid : isSpace c = false) : c ∈ collapseSpaces cs := by
  obtain ⟨x, z, rfl⟩ := List.append_of_mem member
  rw [collapseSpaces_append solid, collapseSpaces_cons solid]
  exact List.mem_append_right _ List.mem_cons_self

theorem collapseSpaces_ne_nil (some : cs ≠ []) : collapseSpaces cs ≠ [] := by
  induction cs with
  | nil => contradiction
  | cons d rest ih =>
    rw [collapseSpaces]
    split
    · split
      · -- Behind a space that is left out the run goes on.
        rename_i more
        exact ih fun empty => by simp [empty] at more
      · exact List.cons_ne_nil _ _
    · exact List.cons_ne_nil _ _

/-- A text begins like its form with single spaces, unless that begins with a space. -/
theorem head?_collapseSpaces (first : (collapseSpaces cs).head? = some c) :
    c = ' ' ∨ cs.head? = some c := by
  induction cs with
  | nil => cases first
  | cons d rest ih =>
    rw [collapseSpaces] at first
    split at first
    · split at first
      · rename_i more
        rcases ih first with space | next
        · exact .inl space
        · rw [next] at more
          exact .inl (eq_space_of_mem_collapseSpaces (List.mem_of_head? first) more)
      · exact .inl (Option.some.inj first).symm
    · exact .inr first

/-- A text ends like its form with single spaces, unless that ends with a space. -/
theorem getLast?_collapseSpaces (last : (collapseSpaces cs).getLast? = some c) :
    c = ' ' ∨ cs.getLast? = some c := by
  induction cs with
  | nil => cases last
  | cons d rest ih =>
    cases rest with
    | nil =>
      rw [collapseSpaces] at last
      split at last
      · exact .inl (Option.some.inj last).symm
      · exact .inr last
    | cons e rest =>
      rw [List.getLast?_cons_cons]
      have more := collapseSpaces_ne_nil (List.cons_ne_nil e rest)
      refine ih ?_
      rw [collapseSpaces.eq_2] at last
      generalize collapseSpaces (e :: rest) = later at more last
      split at last
      · split at last
        · exact last
        · rwa [List.getLast?_cons_of_ne_nil more] at last
      · rwa [List.getLast?_cons_of_ne_nil more] at last

/-- What a text with single spaces begins with, if it has no space, the text begins with. -/
theorem exists_of_collapseSpaces_eq {rest : List Char} (solid : ∀ c ∈ word, isSpace c = false)
    (same : collapseSpaces cs = word ++ rest) : ∃ z, cs = word ++ z ∧ collapseSpaces z = rest := by
  induction word generalizing cs with
  | nil => exact ⟨cs, rfl, same⟩
  | cons c word ih =>
    have here := solid c List.mem_cons_self
    have first : cs.head? = some c := by
      refine (head?_collapseSpaces (by rw [same]; rfl)).resolve_left fun space => ?_
      rw [space] at here
      cases here
    obtain ⟨later, rfl⟩ := List.head?_eq_some_iff.mp first
    rw [collapseSpaces_cons here] at same
    obtain ⟨z, rfl, rest⟩ :=
      ih (fun d member => solid d (List.mem_cons_of_mem c member)) (List.cons.inj same).2
    exact ⟨z, rfl, rest⟩

/-- Trimming at the front comes before or after the writing of single spaces. -/
theorem trimStart_collapseSpaces (cs : List Char) :
    trimStart (collapseSpaces cs) = collapseSpaces (trimStart cs) := by
  induction cs with
  | nil => rfl
  | cons c rest ih =>
    rw [trimStart, trimStart] at ih ⊢
    rw [collapseSpaces, List.dropWhile_cons]
    by_cases blank : isSpace c = true
    · rw [if_pos blank, if_pos blank, ← ih]
      split <;> rfl
    · rw [if_neg blank, if_neg blank, List.dropWhile_cons_of_neg blank,
        collapseSpaces_cons (Bool.eq_false_iff.mpr blank)]

end LakeSchema.Text
