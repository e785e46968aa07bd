import Mathlib.Data.Bool.AllAny
import LakeSchema.Proofs.Sql.Identifier
import LakeSchema.Proofs.Sql.Lexis

/-!
# Texts that close what they open

A closed text shows no semicolon, and a scan of it ends in the code. Whatever is quoted is closed.
Texts are closed together when each of them is and no mark goes across where they meet; plain texts
meet no other in a mark.
-/

namespace LakeSchema.Sql

/-- In a script comments, literals, names and dollar bodies hide what they hold. -/
def scriptLexis : Lexis :=
  fun _ _ => true

theorem scriptLexis_near : scriptLexis.Near :=
  fun _ _ _ => rfl

/-- The place behind a text. -/
def placeAfter (knows : Lexis) (place : Place) : List Char → Place
  | [] => place
  | c :: rest => placeAfter knows (place.behind knows c rest) rest

/-! ### Where texts meet -/

/-- The marks of two characters. -/
def pairs : List (Char × Char) :=
  [('-', '-'), ('/', '*'), ('*', '/'), ('$', '$')]

/-- No mark goes across from the first text to the second. -/
def Apart (a b : List Char) : Prop :=
  ∀ c ∈ a.getLast?, ∀ d ∈ b.head?, (c, d) ∉ pairs

variable {knows : Lexis} {place p q r : Place} {c d : Char} {a b cs rest : List Char}
  {s t : String}

theorem Apart.of_cons (apart : Apart (c :: a) b) : Apart a b := by
  cases a with
  | nil => exact nofun
  | cons d a => exact fun e last => apart e (by simpa using last)

theorem Place.behind_apart (near : knows.Near) (apart : (c, d) ∉ pairs) :
    place.behind knows c (d :: rest) = place.behind knows c [] := by
  simp only [pairs, List.mem_cons, Prod.mk.injEq, List.not_mem_nil, or_false, not_or] at apart
  have begins : ∀ region : Region, region.beginsWith c (some d) = region.beginsWith c none := by
    intro region
    cases region <;> simp_all [Region.beginsWith]
  have opened : knows.opened? c (d :: rest) = knows.opened? c [] := by
    simp only [Lexis.opened?, List.head?_cons, List.head?_nil, begins, near _ (d :: rest) []]
  have block : (c == '*' && some d == some '/') = (c == '*' && none == some '/') := by simp_all
  have body : (c == '$' && some d == some '$') = (c == '$' && none == some '$') := by simp_all
  simp only [Place.behind, opened, List.head?_cons, List.head?_nil, block, body]
  rfl

/-- A scan of two texts is a scan of the first and then of the second. -/
theorem scan_append (near : knows.Near) (apart : Apart a b) (place : Place) :
    shownFrom knows place (a ++ b) =
        shownFrom knows place a ++ shownFrom knows (placeAfter knows place a) b ∧
      placeAfter knows place (a ++ b) = placeAfter knows (placeAfter knows place a) b := by
  induction a generalizing place with
  | nil => exact ⟨rfl, rfl⟩
  | cons c rest ih =>
    -- Only the last character of the first text has the second one right behind it.
    have same : place.behind knows c (rest ++ b) = place.behind knows c rest := by
      cases rest with
      | cons d rest => exact Place.behind_congr near rfl
      | nil =>
        cases b with
        | nil => rfl
        | cons d b => exact Place.behind_apart near (apart c rfl d rfl)
    have shows : place.shows knows c (rest ++ b) = place.shows knows c rest := by
      rw [Place.shows, Place.shows, same]
    obtain ⟨shown, ends⟩ := ih apart.of_cons (place.behind knows c rest)
    rw [List.cons_append, shownFrom_cons, shownFrom_cons, same, shows, shown]
    refine ⟨rfl, ?_⟩
    rw [placeAfter, placeAfter, same, ends]

/-- A text that shows some characters only leads a scan from one place to another. -/
structure Scans (knows : Lexis) (allowed : Char → Prop) (p : Place) (cs : List Char) (q : Place) :
    Prop where
  each : ∀ c ∈ shownFrom knows p cs, allowed c
  ends : placeAfter knows p cs = q

/-- A text that shows no semicolon leads a scan from one place to another. -/
structure Passes (p : Place) (cs : List Char) (q : Place) : Prop where
  quiet : ';' ∉ shownFrom scriptLexis p cs
  ends : placeAfter scriptLexis p cs = q

theorem Passes.append (first : Passes p a q) (second : Passes q b r) (apart : Apart a b) :
    Passes p (a ++ b) r := by
  obtain ⟨shown, ends⟩ := scan_append scriptLexis_near apart p
  rw [first.ends] at shown ends
  refine ⟨?_, ends.trans second.ends⟩
  rw [shown, List.mem_append]
  exact fun member => member.elim first.quiet second.quiet

/-- A scan goes on as before behind a text that leads it nowhere else. -/
theorem Passes.append_iff (first : Passes p a q) (apart : Apart a b) :
    Passes p (a ++ b) r ↔ Passes q b r := by
  refine ⟨fun both => ?_, fun second => first.append second apart⟩
  obtain ⟨shown, ends⟩ := scan_append scriptLexis_near apart p
  rw [first.ends] at shown ends
  refine ⟨fun member => both.quiet ?_, ends.symm.trans both.ends⟩
  rw [shown]
  exact List.mem_append_right _ member

/-! ### Closed and plain texts -/

/-- A text that shows no semicolon, read from the code to the code. -/
def Closed (s : String) : Prop :=
  Passes .outside s.toList .outside

instance (p q : Place) (cs : List Char) : Decidable (Passes p cs q) :=
  decidable_of_iff (';' ∉ shownFrom scriptLexis p cs ∧ placeAfter scriptLexis p cs = q)
    ⟨fun ⟨quiet, ends⟩ => ⟨quiet, ends⟩, fun ⟨quiet, ends⟩ => ⟨quiet, ends⟩⟩

instance (s : String) : Decidable (Closed s) :=
  inferInstanceAs (Decidable (Passes _ _ _))

/-- The characters that marks of two characters consist of. -/
def edges : List Char :=
  ['-', '/', '*', '$']

theorem mem_edges_of_pair (pair : (c, d) ∈ pairs) : c ∈ edges ∧ d ∈ edges := by
  have all : ∀ pair ∈ pairs, pair.1 ∈ edges ∧ pair.2 ∈ edges := List.all_iff_forall_prop.mp rfl
  exact all (c, d) pair

/-- A closed text that makes up no mark with a text in front of it. -/
structure Trailing (s : String) : Prop where
  closed : Closed s
  first : ∀ c ∈ s.toList.head?, c ∉ edges

/-- A closed text that makes up no mark with the texts around it. -/
structure Plain (s : String) : Prop extends Trailing s where
  last : ∀ c ∈ s.toList.getLast?, c ∉ edges

theorem Plain.apart (plain : Plain s) (b : List Char) : Apart s.toList b :=
  fun c last _ _ pair => plain.last c last (mem_edges_of_pair pair).1

theorem apart_of_first (first : ∀ c ∈ b.head?, c ∉ edges) (a : List Char) : Apart a b :=
  fun _ _ d here pair => first d here (mem_edges_of_pair pair).2

theorem Trailing.apart (trailing : Trailing s) (a : List Char) : Apart a s.toList :=
  apart_of_first trailing.first a

theorem Closed.append (closed : Closed s) (trailing : Trailing t) : Closed (s ++ t) := by
  rw [Closed, String.toList_append]
  exact Passes.append closed trailing.closed (trailing.apart _)

theorem Plain.closed_append_iff (plain : Plain s) : Closed (s ++ t) ↔ Closed t := by
  rw [Closed, String.toList_append]
  exact plain.closed.append_iff (plain.apart _)

theorem Trailing.append (trailingS : Trailing s) (trailingT : Trailing t) : Trailing (s ++ t) where
  closed := trailingS.closed.append trailingT
  first c first := by
    rw [String.toList_append, List.head?_append, Option.mem_def, Option.or_eq_some_iff] at first
    exact first.elim (trailingS.first c) fun first => trailingT.first c first.2

theorem Plain.append (plainS : Plain s) (plainT : Plain t) : Plain (s ++ t) where
  toTrailing := plainS.toTrailing.append plainT.toTrailing
  last c last := by
    rw [String.toList_append, List.getLast?_append, Option.mem_def, Option.or_eq_some_iff] at last
    exact last.elim (plainT.last c) fun last => plainS.last c last.2

theorem Plain.first_append (plain : Plain s) (nonempty : s ≠ "") :
    ∀ c ∈ (s ++ t).toList.head?, c ∉ edges := by
  obtain ⟨c, rest, same⟩ := List.exists_cons_of_ne_nil (mt String.toList_eq_nil_iff.mp nonempty)
  have first := plain.first
  rw [String.toList_append]
  rw [same] at first ⊢
  exact first

/-- Behind a plain text, another one only has to be closed. -/
theorem Plain.append_closed (plain : Plain s) (nonempty : s ≠ "") (closed : Closed t) :
    Trailing (s ++ t) where
  closed := plain.closed_append_iff.mpr closed
  first := plain.first_append nonempty

/-- The characters that begin or end anything, and semicolons. -/
def signs : List Char :=
  edges ++ ['\'', backtick, ';']

/-- A text without signs is shown as it is. -/
theorem scan_of_all (knows : Lexis) (quiet : ∀ c ∈ cs, c ∉ signs) :
    shownFrom knows .outside cs = cs ∧ placeAfter knows .outside cs = .outside := by
  induction cs with
  | nil => exact ⟨rfl, rfl⟩
  | cons c rest ih =>
    have here : c ∉ signs := quiet c List.mem_cons_self
    have nothing : knows.opened? c rest = none := by
      refine opened?_eq_none fun region begins => absurd ?_ here
      cases region <;> simp_all [Region.beginsWith, signs, edges]
    have stays : Place.outside.behind knows c rest = .outside := by
      simp [Place.behind, Place.outside, nothing]
    obtain ⟨same, ends⟩ := ih fun d member => quiet d (List.mem_cons_of_mem c member)
    exact ⟨by rw [shownFrom_code nothing, same], by rw [placeAfter, stays, ends]⟩

theorem passes_of_all (quiet : ∀ c ∈ cs, c ∉ signs) : Passes .outside cs .outside := by
  obtain ⟨same, ends⟩ := scan_of_all scriptLexis quiet
  refine ⟨fun member => quiet ';' ?_ (by decide), ends⟩
  rwa [same] at member

theorem plain_of_all (quiet : ∀ c ∈ s.toList, c ∉ signs) : Plain s where
  closed := passes_of_all quiet
  first c first := fun edge =>
    quiet c (List.mem_of_head? first) (List.mem_append_left _ edge)
  last c last := fun edge =>
    quiet c (List.mem_of_getLast? last) (List.mem_append_left _ edge)

theorem plain_words (quiet : s.toList.all (fun c => !signs.contains c) = true) : Plain s := by
  refine plain_of_all fun c member => ?_
  simpa using List.all_eq_true.mp quiet c member

theorem Plain.words (plain : Plain s)
    (quiet : t.toList.all (fun c => !signs.contains c) = true) : Plain (s ++ t) :=
  plain.append (plain_words quiet)

theorem plain_empty : Plain "" :=
  plain_of_all nofun

/-! ### Quoted texts -/

theorem Place.behind_backtick (known : ∀ rest, knows .name rest = true) (rest : List Char) :
    Place.outside.behind knows backtick rest = ⟨.name, false⟩ := by
  have opens : knows.opened? backtick rest = some .name := by
    simp [Lexis.opened?, Region.beginsWith, known, backtick]
  simp [Place.behind, Place.outside, opens, Region.hasPairs]

theorem Place.behind_quote (known : ∀ rest, knows .literal rest = true) (rest : List Char) :
    Place.outside.behind knows '\'' rest = ⟨.literal, false⟩ := by
  have opens : knows.opened? '\'' rest = some .literal := by
    simp [Lexis.opened?, Region.beginsWith, known]
  simp [Place.behind, Place.outside, opens, Region.hasPairs]

section Scans

variable {allowed : Char → Prop}

/-- A hidden character says nothing but where the scan goes on. -/
theorem Scans.hidden (blank : allowed ' ') (shows : p.shows knows c cs = false)
    (rest : Scans knows allowed (p.behind knows c cs) cs q) : Scans knows allowed p (c :: cs) q := by
  refine ⟨?_, rest.ends⟩
  rw [shownFrom_cons, shows, List.forall_mem_cons]
  exact ⟨blank, rest.each⟩

/-- The first character of a literal or a name is shown. -/
theorem Scans.opening (blank : allowed ' ') (mark : allowed c)
    (opens : Place.outside.behind knows c cs = p) (rest : Scans knows allowed p cs q) :
    Scans knows allowed .outside (c :: cs) q := by
  refine ⟨?_, by rw [placeAfter, opens, rest.ends]⟩
  rw [shownFrom_cons, opens, List.forall_mem_cons]
  refine ⟨?_, rest.each⟩
  split
  · exact mark
  · exact blank

variable (blank : allowed ' ')
include blank

/-- Behind an opening backtick, two in a row close the name and open it again. -/
theorem scans_name (known : ∀ rest, knows .name rest = true) (mark : allowed backtick)
    (cs : List Char) : Scans knows allowed ⟨.name, false⟩
      (Text.replaceChar backtick [backtick, backtick] cs ++ [backtick]) .outside := by
  induction cs with
  | nil => exact .hidden blank rfl ⟨nofun, rfl⟩
  | cons c rest ih =>
    rw [Text.replaceChar, List.flatMap_cons, List.append_assoc]
    split
    · exact .hidden blank rfl (.opening blank mark (Place.behind_backtick known _) ih)
    · rename_i other
      have stays : Place.behind knows ⟨.name, false⟩ c (Text.replaceChar backtick
          [backtick, backtick] rest ++ [backtick]) = ⟨.name, false⟩ := by
        simp [Place.behind, other]
      exact .hidden blank rfl (stays.symm ▸ ih)

/-- Behind an opening quote, an escaped character closes nothing. -/
theorem scans_literal (cs : List Char) :
    Scans knows allowed ⟨.literal, false⟩ (escapeLiteral cs ++ ['\'']) .outside := by
  induction cs with
  | nil => exact .hidden blank rfl ⟨nofun, rfl⟩
  | cons c rest ih =>
    rw [escapeLiteral, List.flatMap_cons, List.append_assoc]
    split
    · exact .hidden blank rfl (.hidden blank rfl ih)
    · rename_i other
      have stays : Place.behind knows ⟨.literal, false⟩ c (escapeLiteral rest ++ ['\'']) =
          ⟨.literal, false⟩ := by
        simp_all [Place.behind]
      exact .hidden blank rfl (stays.symm ▸ ih)

theorem scans_inBackticks (known : ∀ rest, knows .name rest = true) (mark : allowed backtick)
    (cs : List Char) : Scans knows allowed .outside (inBackticks cs) .outside :=
  .opening blank mark (Place.behind_backtick known _) (scans_name blank known mark cs)

theorem scans_stringLiteral (known : ∀ rest, knows .literal rest = true) (mark : allowed '\'')
    (text : String) : Scans knows allowed .outside (stringLiteral text).toList .outside := by
  rw [stringLiteral, String.toList_ofList]
  exact .opening blank mark (Place.behind_quote known _) (scans_literal blank _)

end Scans

theorem passes_iff_scans : Passes p cs q ↔ Scans scriptLexis (· ≠ ';') p cs q :=
  ⟨fun passes => ⟨fun _ member same => passes.quiet (same ▸ member), passes.ends⟩,
    fun scans => ⟨fun member => scans.each ';' member rfl, scans.ends⟩⟩

theorem Passes.hidden (shows : p.shows scriptLexis c cs = false)
    (rest : Passes (p.behind scriptLexis c cs) cs q) : Passes p (c :: cs) q :=
  passes_iff_scans.mpr (.hidden (by decide) shows (passes_iff_scans.mp rest))

theorem Passes.opening (mark : c ≠ ';') (opens : Place.outside.behind scriptLexis c cs = p)
    (rest : Passes p cs q) : Passes .outside (c :: cs) q :=
  passes_iff_scans.mpr (.opening (by decide) mark opens (passes_iff_scans.mp rest))

theorem plain_between (mark : c ∉ edges) (same : s.toList = c :: cs ++ [c]) (closed : Closed s) :
    Plain s where
  closed := closed
  first d first := by
    rw [same] at first
    exact Option.some.inj first ▸ mark
  last d last := by
    rw [same, List.getLast?_concat] at last
    exact Option.some.inj last ▸ mark

theorem not_mem_of_isPlainName (plain : isPlainName cs = true) {others : List Char}
    (apart : ∀ d ∈ others, Text.isIdentifierPart d = false) : ∀ c ∈ cs, c ∉ others := by
  intro c member other
  have part := isIdentifierPart_of_isPlainName plain c member
  rw [apart c other] at part
  cases part

theorem plain_quoteIdentifier (name : String) : Plain (quoteIdentifier name) := by
  rcases quoteIdentifier_toList name with ⟨same, plain⟩ | same
  · exact plain_of_all (same.symm ▸ not_mem_of_isPlainName plain (List.all_iff_forall_prop.mp rfl))
  · refine plain_between (by decide) same (passes_iff_scans.mpr ?_)
    exact same.symm ▸ scans_inBackticks (by decide) (fun _ => rfl) (by decide) name.toList

theorem plain_stringLiteral (text : String) : Plain (stringLiteral text) :=
  plain_between (by decide) String.toList_ofList
    (passes_iff_scans.mpr (scans_stringLiteral (by decide) (fun _ => rfl) (by decide) text))

/-! ### Lists of texts -/

variable {separator : String} {texts : List String}

theorem plain_intercalate (plain : Plain separator) (each : ∀ s ∈ texts, Plain s) :
    Plain (separator.intercalate texts) := by
  induction texts with
  | nil => exact String.intercalate_nil ▸ plain_empty
  | cons s rest ih =>
    have later := ih fun t member => each t (List.mem_cons_of_mem s member)
    have here := each s List.mem_cons_self
    cases rest with
    | nil => exact String.intercalate_singleton ▸ here
    | cons t rest =>
      rw [String.intercalate_cons_cons]
      exact (here.append plain).append later

theorem closed_intercalate (plain : Plain separator) (nonempty : separator ≠ "")
    (each : ∀ s ∈ texts, Closed s) : Closed (separator.intercalate texts) := by
  induction texts with
  | nil => exact String.intercalate_nil ▸ plain_empty.closed
  | cons s rest ih =>
    have later := ih fun t member => each t (List.mem_cons_of_mem s member)
    have here := each s List.mem_cons_self
    cases rest with
    | nil => exact String.intercalate_singleton ▸ here
    | cons t rest =>
      rw [String.intercalate_cons_cons, String.append_assoc]
      exact here.append (plain.append_closed nonempty later)

end LakeSchema.Sql
