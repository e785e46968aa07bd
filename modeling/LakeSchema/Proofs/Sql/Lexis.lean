import LakeSchema.Sql.Identifier
import LakeSchema.Sql.Scan

/-!
# Reading SQL from left to right

In a text of SQL, comments, literals, names between backticks and dollar bodies hide what stands in
them. `shown` puts a space in place of every hidden character, so that a text and what it shows
have the same positions. Which marks count is a parameter: the regions that a `Lexis` knows.
-/

namespace LakeSchema.Sql

/-- What a character of a text belongs to. -/
inductive Region where
  | code
  | line
  | block
  | literal
  | name
  | body
deriving DecidableEq

/-- Whether a region begins with the character `c` in front of `next`. -/
def Region.beginsWith (region : Region) (c : Char) (next : Option Char) : Bool :=
  match region with
  | code => false
  | line => c == '-' && next == some '-'
  | block => c == '/' && next == some '*'
  | literal => c == '\''
  | name => c == backtick
  | body => c == '$' && next == some '$'

/-- Whether the marks of a region have two characters. -/
def Region.hasPairs : Region → Bool
  | line | block | body => true
  | code | literal | name => false

def Region.isComment : Region → Bool
  | line | block => true
  | code | literal | name | body => false

/-- The regions whose opening marks count, with the text behind the mark's first character. -/
def Lexis :=
  Region → List Char → Bool

/-- The region that begins in the code with the character `c`. -/
def Lexis.opened? (knows : Lexis) (c : Char) (rest : List Char) : Option Region :=
  [.line, .block, .literal, .name, .body].find? fun region =>
    region.beginsWith c rest.head? && knows region rest

/-- A scan between two characters. `within` says that the next one ends a mark or is escaped. -/
@[ext]
structure Place where
  region : Region
  within : Bool
deriving DecidableEq

namespace Place

/-- In the code, behind no part of a mark. -/
def outside : Place :=
  ⟨.code, false⟩

/-- The place behind the character `c`. -/
def behind (knows : Lexis) (place : Place) (c : Char) (rest : List Char) : Place :=
  if place.within then ⟨place.region, false⟩
  else match place.region with
    | .code =>
      match knows.opened? c rest with
      | some region => ⟨region, region.hasPairs⟩
      | none => place
    | .line => if c == '\n' then outside else place
    | .block => if c == '*' && rest.head? == some '/' then ⟨.code, true⟩ else place
    | .literal =>
      if c == '\\' then ⟨.literal, true⟩ else if c == '\'' then outside else place
    | .name => if c == backtick then outside else place
    | .body => if c == '$' && rest.head? == some '$' then ⟨.code, true⟩ else place

/-- Whether the character `c` is code. The first character of a literal, a name or a body counts. -/
def shows (knows : Lexis) (place : Place) (c : Char) (rest : List Char) : Bool :=
  place == ⟨.line, false⟩ && c == '\n' ||
    place == outside && !(place.behind knows c rest).region.isComment

end Place

/-- What a text shows, read from a place on. -/
def shownFrom (knows : Lexis) (place : Place) : List Char → List Char
  | [] => []
  | c :: rest =>
    (if place.shows knows c rest then c else ' ') ::
      shownFrom knows (place.behind knows c rest) rest

/-- What a text shows. -/
def shown (knows : Lexis) (cs : List Char) : List Char :=
  shownFrom knows .outside cs

variable {knows : Lexis} {place : Place} {c d : Char} {cs rest text middle form word : List Char}

theorem shownFrom_cons : shownFrom knows place (c :: rest) =
    (if place.shows knows c rest then c else ' ') ::
      shownFrom knows (place.behind knows c rest) rest :=
  rfl

theorem shownFrom_length : (shownFrom knows place cs).length = cs.length := by
  induction cs generalizing place with
  | nil => rfl
  | cons c rest ih => rw [shownFrom_cons, List.length_cons, List.length_cons, ih]

theorem opened?_eq_none
    (unknown : ∀ region, region.beginsWith c rest.head? = true → knows region rest = false) :
    knows.opened? c rest = none := by
  refine List.find?_eq_none.mpr fun region _ opens => ?_
  obtain ⟨begins, known⟩ := Bool.and_eq_true_iff.mp opens
  rw [unknown region begins] at known
  cases known

/-- In the code, a character that opens nothing is shown. -/
theorem shownFrom_code (nothing : knows.opened? c rest = none) :
    shownFrom knows .outside (c :: rest) = c :: shownFrom knows .outside rest := by
  have stays : Place.outside.behind knows c rest = .outside := by
    simp [Place.behind, Place.outside, nothing]
  have shows : Place.outside.shows knows c rest = true := by
    rw [Place.shows, stays]
    exact Bool.or_true _
  rw [shownFrom_cons, stays, if_pos shows]

/-- A space has no meaning of its own anywhere. -/
theorem shownFrom_space : shownFrom knows place (' ' :: cs) =
    ' ' :: shownFrom knows ⟨place.region, false⟩ cs := by
  have nothing : knows.opened? ' ' cs = none := rfl
  have stays : place.behind knows ' ' cs = ⟨place.region, false⟩ := by
    obtain ⟨region, within⟩ := place
    cases within
    · cases region <;> simp [Place.behind, nothing, backtick]
    · rfl
  rw [shownFrom_cons, stays, ite_self]

/-- A lexis that does not look beyond the next character. -/
def Lexis.Near (knows : Lexis) : Prop :=
  ∀ region a b, knows region a = knows region b

theorem Place.behind_congr (near : knows.Near) {a b : List Char} (same : a.head? = b.head?) :
    place.behind knows c a = place.behind knows c b := by
  simp only [Place.behind, Lexis.opened?, same, near _ a b]

theorem Place.shows_congr (near : knows.Near) {a b : List Char} (same : a.head? = b.head?) :
    place.shows knows c a = place.shows knows c b := by
  rw [Place.shows, Place.shows, Place.behind_congr near same]

/-! ### Words are shown or hidden as a whole -/

/-- A text with spaces in place of some of its characters, but of no part of a word. -/
structure Masks (text form : List Char) : Prop where
  length : form.length = text.length
  each : ∀ (n : Nat) c, form[n]? = some c → c ≠ ' ' → text[n]? = some c
  whole : ∀ (n : Nat) c d, text[n]? = some c → text[n + 1]? = some d → Text.isWordChar c →
    Text.isWordChar d → (form[n]? = some c ↔ form[n + 1]? = some d)

theorem ne_of_isWordChar (inWord : Text.isWordChar c) (blank : Text.isWordChar d = false) : c ≠ d := by
  rintro rfl
  rw [inWord] at blank
  cases blank

theorem Masks.trans (first : Masks text middle) (second : Masks middle form) : Masks text form where
  length := second.length.trans first.length
  each n c here solid := first.each n c (second.each n c here solid) solid
  whole n c d here next wordC wordD := by
    by_cases kept : middle[n]? = some c
    · exact second.whole n c d kept ((first.whole n c d here next wordC wordD).mp kept) wordC wordD
    · -- Hidden once, a character does not come back.
      have hidden : middle[n + 1]? ≠ some d := fun shown =>
        kept ((first.whole n c d here next wordC wordD).mpr shown)
      constructor
      · intro shown
        exact absurd (second.each n c shown (ne_of_isWordChar wordC rfl)) kept
      · intro shown
        exact absurd (second.each (n + 1) d shown (ne_of_isWordChar wordD rfl)) hidden

theorem opened?_eq_some {region : Region} (opened : knows.opened? c rest = some region) :
    region.beginsWith c rest.head? = true ∧ knows region rest = true := by
  have found := List.find?_some opened
  exact Bool.and_eq_true_iff.mp found

theorem opened?_word (inWord : Text.isWordChar c) : knows.opened? c rest = none := by
  have different : ∀ d, Text.isWordChar d = false → (c == d) = false := fun d blank =>
    beq_false_of_ne (ne_of_isWordChar inWord blank)
  refine opened?_eq_none fun region begins => ?_
  cases region <;> simp [Region.beginsWith, different '-' rfl, different '/' rfl,
    different '$' rfl, different '\'' rfl, different backtick rfl] at begins

theorem behind_word (inWord : Text.isWordChar c) (free : place.within = false) :
    place.behind knows c rest = place := by
  have different : ∀ d, Text.isWordChar d = false → (c == d) = false := fun d blank =>
    beq_false_of_ne (ne_of_isWordChar inWord blank)
  cases region : place.region <;>
    simp [Place.behind, free, region, opened?_word inWord, different '\n' rfl, different '*' rfl,
      different '\\' rfl, different '\'' rfl, different backtick rfl, different '$' rfl]

theorem shows_word (inWord : Text.isWordChar c) :
    place.shows knows c rest ↔ place = .outside := by
  have line : (c == '\n') = false := beq_false_of_ne (ne_of_isWordChar inWord rfl)
  by_cases out : place = .outside
  · have stays : Place.outside.behind knows c rest = .outside := behind_word inWord rfl
    subst out
    simp [Place.shows, stays, line]
    rfl
  · simp [Place.shows, out, line]

/-- The character behind the first one of a mark is the second one, thus in no word. -/
def Place.Fits (place : Place) (cs : List Char) : Prop :=
  place.within = true → place.region = .literal ∨ ∀ c ∈ cs.head?, Text.isWordChar c = false

theorem Region.next_of_beginsWith {region : Region} {next : Option Char}
    (begins : region.beginsWith c next = true) (pairs : region.hasPairs = true) :
    ∃ mark, next = some mark ∧ Text.isWordChar mark = false := by
  cases region <;> cases pairs <;>
    exact ⟨_, beq_iff_eq.mp (Bool.and_eq_true_iff.mp begins).2, rfl⟩

theorem Place.behind_fits : (place.behind knows c rest).Fits rest := by
  have second : ∀ mark : Char, Text.isWordChar mark = false → rest.head? = some mark →
      ∀ d ∈ rest.head?, Text.isWordChar d = false := by
    intro mark blank same d member
    rw [same] at member
    rwa [← Option.some.inj member]
  intro inside
  -- One case for each region; a scan goes on within a mark only where the mark has two characters.
  unfold Place.behind at inside ⊢
  split at inside
  · cases inside
  rw [if_neg ‹_›]
  split at inside
  case h_1 =>
    split at inside
    · rename_i region opened
      obtain ⟨mark, next, blank⟩ := Region.next_of_beginsWith (opened?_eq_some opened).1 inside
      exact .inr (second mark blank next)
    · contradiction
  case h_2 => split at inside <;> contradiction
  case h_3 =>
    split at inside
    · exact .inr (second '/' rfl (beq_iff_eq.mp (Bool.and_eq_true_iff.mp ‹_›).2))
    · contradiction
  case h_4 =>
    split at inside
    · exact .inl (by rw [if_pos ‹_›])
    · split at inside <;> contradiction
  case h_5 => split at inside <;> contradiction
  case h_6 =>
    split at inside
    · exact .inr (second '$' rfl (beq_iff_eq.mp (Bool.and_eq_true_iff.mp ‹_›).2))
    · contradiction

/-- Behind a character of a word nothing begins or ends. -/
theorem Place.behind_eq_outside_iff (fits : place.Fits (c :: rest)) (inWord : Text.isWordChar c) :
    place.behind knows c rest = .outside ↔ place = .outside := by
  by_cases inside : place.within = true
  · have escaped : place.region = .literal := (fits inside).resolve_right fun blank =>
      ne_of_isWordChar inWord (blank c rfl) rfl
    simp [Place.behind, inside, escaped, Place.outside, Place.ext_iff]
  · rw [behind_word inWord (Bool.not_eq_true _ ▸ inside)]

theorem getElem?_shownFrom_zero (inWord : Text.isWordChar c) :
    (shownFrom knows place (c :: rest))[0]? = some c ↔ place = .outside := by
  have solid : ' ' ≠ c := (ne_of_isWordChar inWord rfl).symm
  have shows : place.shows knows c rest ↔ place = .outside := shows_word inWord
  rw [shownFrom_cons, List.getElem?_cons_zero, Option.some_inj, ← shows]
  split <;> simp_all

/-- What is shown stands in the text at the same position. -/
theorem getElem?_of_shownFrom {n : Nat} (here : (shownFrom knows place cs)[n]? = some c)
    (solid : c ≠ ' ') : cs[n]? = some c := by
  induction cs generalizing place n with
  | nil => simp [shownFrom] at here
  | cons d rest ih =>
    rw [shownFrom_cons] at here
    cases n with
    | succ n => exact ih here
    | zero =>
      simp only [List.getElem?_cons_zero, Option.some.injEq] at here ⊢
      split at here
      · exact here
      · exact absurd here.symm solid

theorem shownFrom_masks (fits : place.Fits cs) : Masks cs (shownFrom knows place cs) where
  length := shownFrom_length
  each _ _ := getElem?_of_shownFrom
  whole n c d here next wordC wordD := by
    induction cs generalizing place n with
    | nil => simp at here
    | cons first rest ih =>
      cases n with
      | succ n => exact ih Place.behind_fits n here next
      | zero =>
        obtain rfl : first = c := by simpa using here
        cases rest with
        | nil => simp at next
        | cons second rest =>
          -- Both are shown or both are hidden, as the first of them leaves the scan where it is.
          obtain rfl : second = d := by simpa using next
          rw [getElem?_shownFrom_zero wordC, ← Place.behind_eq_outside_iff fits wordC]
          exact (getElem?_shownFrom_zero wordD).symm

theorem shown_masks (knows : Lexis) (cs : List Char) : Masks cs (shown knows cs) :=
  shownFrom_masks nofun

end LakeSchema.Sql
