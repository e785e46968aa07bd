import LakeSchema.Proofs.Sql.Lexis
import LakeSchema.Sql.Query

/-!
# The comments that the check of a query takes out

The check takes out block comments first and line comments from the rest, both without regard to
literals. `Query.seen` does the same but leaves every other character in its place
(`clean_eq`), so that what the check sees can be compared with what the text shows.
-/

namespace LakeSchema.Query

open Sql

/-- Block comments are all that the first pass knows, if they are closed. -/
def blocksOnly : Lexis :=
  fun region rest => region == .block && Text.occursIn ['*', '/'] rest.tail

/-- Line comments are all that the second pass knows. -/
def linesOnly : Lexis :=
  fun region _ => region == .line

theorem linesOnly_near : linesOnly.Near :=
  fun _ _ _ => rfl

/-- What the check sees of a text, character by character. -/
def seen (cs : List Char) : List Char :=
  shown linesOnly (shown blocksOnly cs)

theorem seen_masks (cs : List Char) : Masks cs (seen cs) :=
  (shown_masks blocksOnly cs).trans (shown_masks linesOnly _)

/-- The same text but for further spaces in front of spaces. -/
inductive Spread : List Char → List Char → Prop where
  | nil : Spread [] []
  | cons {a b : List Char} (c : Char) : Spread a b → Spread (c :: a) (c :: b)
  | space {a b : List Char} : Spread (' ' :: a) b → Spread (' ' :: a) (' ' :: b)

variable {a b cs rest : List Char} {c : Char} {place : Place}

namespace Spread

theorem head? (spread : Spread a b) : a.head? = b.head? := by
  cases spread <;> rfl

theorem refl : ∀ cs, Spread cs cs
  | [] => nil
  | c :: rest => cons c (refl rest)

theorem space_of_head? (spread : Spread a b) (blank : a.head? = some ' ') : Spread a (' ' :: b) := by
  obtain ⟨rest, rfl⟩ := List.head?_eq_some_iff.mp blank
  exact space spread

theorem collapseSpaces (spread : Spread a b) : Text.collapseSpaces a = Text.collapseSpaces b := by
  induction spread with
  | nil => rfl
  | cons c rest ih => simp only [Text.collapseSpaces, rest.head?, ih]
  | @space a b rest ih =>
    have blank : b.head? = some ' ' := rest.head?.symm
    rw [ih, Text.collapseSpaces.eq_2 ' ' b, blank]
    rfl

end Spread

/-! ### Block comments -/

theorem closing_cons : Text.occursIn ['*', '/'] (c :: rest) = true ↔
    (c = '*' ∧ rest.head? = some '/') ∨ Text.occursIn ['*', '/'] rest = true := by
  rw [Text.occursIn, Bool.or_eq_true]
  refine or_congr_left ?_
  cases rest with
  | nil => simp [List.isPrefixOf]
  | cons d rest => simp [List.isPrefixOf, eq_comm (a := c), eq_comm (a := d)]

theorem opened?_blocksOnly_eq_none
    (other : ¬(c = '/' ∧ rest.head? = some '*' ∧ Text.occursIn ['*', '/'] rest.tail = true)) :
    Lexis.opened? blocksOnly c rest = none := by
  refine opened?_eq_none fun region begins => Bool.eq_false_iff.mpr fun known => ?_
  obtain ⟨block, closed⟩ := Bool.and_eq_true_iff.mp known
  rw [beq_iff_eq.mp block, Region.beginsWith, Bool.and_eq_true, beq_iff_eq, beq_iff_eq] at begins
  exact other ⟨begins.1, begins.2, closed⟩

theorem shownFrom_unclosed (unclosed : ¬Text.occursIn ['*', '/'] cs = true) :
    shownFrom blocksOnly .outside cs = cs := by
  induction cs with
  | nil => rfl
  | cons c rest ih =>
    have later : ¬Text.occursIn ['*', '/'] rest = true := fun occurs =>
      unclosed (closing_cons.mpr (.inr occurs))
    rw [shownFrom_code (opened?_blocksOnly_eq_none _), ih later]
    rintro ⟨-, next, closed⟩
    obtain ⟨tail, rfl⟩ := List.head?_eq_some_iff.mp next
    exact later (closing_cons.mpr (.inr closed))

theorem shownFrom_block (goesOn : ¬(c = '*' ∧ rest.head? = some '/')) :
    shownFrom blocksOnly ⟨.block, false⟩ (c :: rest) =
      ' ' :: shownFrom blocksOnly ⟨.block, false⟩ rest := by
  have stays : Place.behind blocksOnly ⟨.block, false⟩ c rest = ⟨.block, false⟩ := by
    simp [Place.behind, goesOn]
  rw [shownFrom_cons, stays]
  rfl

theorem shownFrom_opening (closed : Text.occursIn ['*', '/'] rest = true) :
    shownFrom blocksOnly .outside ('/' :: '*' :: rest) =
      ' ' :: ' ' :: shownFrom blocksOnly ⟨.block, false⟩ rest := by
  have opened : Lexis.opened? blocksOnly '/' ('*' :: rest) = some .block :=
    (List.find?_cons_of_neg Bool.false_ne_true).trans (List.find?_cons_of_pos closed)
  have opens : Place.behind blocksOnly .outside '/' ('*' :: rest) = ⟨.block, true⟩ := by
    simp [Place.behind, Place.outside, opened, Region.hasPairs]
  rw [shownFrom_cons, Place.shows, opens]
  rfl

/-- The place of the first pass, inside or outside a comment. -/
def blockPlace : (inside : Bool) → Place
  | true => ⟨.block, false⟩
  | false => .outside

theorem spread_blocks (inside : Bool) (cs : List Char)
    (closed : inside = true → Text.occursIn ['*', '/'] cs = true) :
    Spread (withoutBlocks inside cs) (shownFrom blocksOnly (blockPlace inside) cs) ∧
      (inside = true → (withoutBlocks inside cs).head? = some ' ') := by
  -- Along the recursion of the check, which writes one space where a comment ends; the scan writes
  -- one for every character of it.
  fun_induction withoutBlocks inside cs with
  | case1 inside =>
    cases inside with
    | true => exact absurd (closed rfl) (by decide)
    | false => exact ⟨.nil, nofun⟩
  | case2 rest ih => exact ⟨.space (.cons ' ' (ih nofun).1), fun _ => rfl⟩
  | case3 c rest other ih =>
    have goesOn : ¬(c = '*' ∧ rest.head? = some '/') := by
      rintro ⟨rfl, next⟩
      obtain ⟨tail, rfl⟩ := List.head?_eq_some_iff.mp next
      exact other tail rfl rfl
    have later := (closing_cons.mp (closed rfl)).resolve_left goesOn
    obtain ⟨spread, blank⟩ := ih fun _ => later
    rw [blockPlace, shownFrom_block goesOn]
    exact ⟨spread.space_of_head? (blank rfl), blank⟩
  | case4 rest occurs ih =>
    obtain ⟨spread, blank⟩ := ih fun _ => occurs
    rw [blockPlace, shownFrom_opening occurs]
    exact ⟨(spread.space_of_head? (blank rfl)).space_of_head? (blank rfl), nofun⟩
  | case5 rest unclosed =>
    rw [blockPlace, shownFrom_code (opened?_blocksOnly_eq_none _),
      shownFrom_code (opened?_blocksOnly_eq_none _), shownFrom_unclosed unclosed]
    · exact ⟨.refl _, nofun⟩
    · exact fun mark => absurd mark.1 (by decide)
    · exact fun mark => unclosed mark.2.2
  | case6 c rest other ih =>
    rw [blockPlace, shownFrom_code (opened?_blocksOnly_eq_none _)]
    · exact ⟨.cons c (ih nofun).1, nofun⟩
    · rintro ⟨rfl, next, -⟩
      obtain ⟨tail, rfl⟩ := List.head?_eq_some_iff.mp next
      exact other tail rfl rfl

/-! ### Line comments -/

/-- The place of the second pass, inside or outside a comment. -/
def linePlace : (inside : Bool) → Place
  | true => ⟨.line, false⟩
  | false => .outside

/-- The space for a comment, which the check writes where the comment begins. -/
def commentSpace : (inside : Bool) → List Char
  | true => [' ']
  | false => []

theorem opened?_linesOnly_eq_none (other : ¬(c = '-' ∧ rest.head? = some '-')) :
    Lexis.opened? linesOnly c rest = none := by
  refine opened?_eq_none fun region begins => Bool.eq_false_iff.mpr fun known => other ?_
  rw [beq_iff_eq.mp known, Region.beginsWith, Bool.and_eq_true, beq_iff_eq, beq_iff_eq] at begins
  exact begins

theorem shownFrom_line (goesOn : ¬c = '\n') :
    shownFrom linesOnly ⟨.line, false⟩ (c :: rest) =
      ' ' :: shownFrom linesOnly ⟨.line, false⟩ rest := by
  have stays : Place.behind linesOnly ⟨.line, false⟩ c rest = ⟨.line, false⟩ := by
    simp [Place.behind, goesOn]
  have hidden : Place.shows linesOnly ⟨.line, false⟩ c rest = false := by
    rw [Place.shows, stays, beq_false_of_ne goesOn]
    rfl
  rw [shownFrom_cons, stays, hidden]
  rfl

theorem spread_lines (inside : Bool) (cs : List Char) :
    Spread (commentSpace inside ++ withoutLines inside cs)
      (commentSpace inside ++ shownFrom linesOnly (linePlace inside) cs) := by
  fun_induction withoutLines inside cs with
  | case1 inside => exact .refl _
  | case2 c rest ends ih =>
    obtain rfl := beq_iff_eq.mp ends
    exact .cons ' ' (.cons '\n' ih)
  | case3 c rest goesOn ih =>
    rw [linePlace, shownFrom_line (by simpa using goesOn)]
    exact .space_of_head? ih rfl
  | case4 rest ih => exact .space_of_head? ih rfl
  | case5 c rest other ih =>
    rw [linePlace, shownFrom_code (opened?_linesOnly_eq_none _)]
    · exact .cons c ih
    · rintro ⟨rfl, next⟩
      obtain ⟨tail, rfl⟩ := List.head?_eq_some_iff.mp next
      exact other tail rfl rfl

theorem Spread.shownFrom {knows : Lexis} (near : knows.Near) (spread : Spread a b) :
    Spread (shownFrom knows place a) (shownFrom knows place b) := by
  induction spread generalizing place with
  | nil => exact .nil
  | @cons a b c rest ih =>
    rw [shownFrom_cons, shownFrom_cons, Place.behind_congr near rest.head?,
      Place.shows_congr near rest.head?]
    exact .cons _ ih
  | @space a b rest ih =>
    obtain ⟨later, rfl⟩ := List.head?_eq_some_iff.mp rest.head?.symm
    have wider : Spread (Sql.shownFrom knows place (' ' :: a))
        (Sql.shownFrom knows place (' ' :: later)) := ih
    rw [shownFrom_space, shownFrom_space] at wider ⊢
    rw [shownFrom_space]
    exact .space wider

/-- The check works on what it sees. -/
theorem clean_eq (cs : List Char) : clean cs = Text.trim (Text.collapseSpaces (seen cs)) := by
  have lines := (spread_lines false (withoutBlocks false cs)).collapseSpaces
  have blocks : Spread (shown linesOnly (withoutBlocks false cs)) (seen cs) :=
    (spread_blocks false cs nofun).1.shownFrom linesOnly_near
  exact congrArg Text.trim (lines.trans blocks.collapseSpaces)

end LakeSchema.Query
