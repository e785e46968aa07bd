import LakeSchema.Document.LegacyType
import LakeSchema.Proofs.Text.Spaces
import LakeSchema.Proofs.Time.Text

/-!
# Pieces between commas

A list of texts with commas between them is cut into the same texts, as long as each closes the
brackets it opens and holds no comma outside of them (`topLevel_comma`). Numbers are read from their
decimal digits (`word32?_toString`).
-/

namespace LakeSchema.Text

variable {c : Char} {cs piece rest current : List Char} {d e : Nat}

/-! ### Outer white space -/

theorem head?_trim (first : (trim cs).head? = some c) : isSpace c = false := by
  have inFront : (trimStart cs).head? = some c := by
    obtain ⟨tail, whole⟩ := dropEndWhile_isPrefix isSpace (trimStart cs)
    rw [← whole, List.head?_append]
    exact Option.or_eq_some_iff.mpr (.inl first)
  exact stops_dropWhile isSpace cs c inFront

theorem getLast?_trim (last : (trim cs).getLast? = some c) : isSpace c = false := by
  rw [trim, trimEnd, List.getLast?_reverse] at last
  exact stops_dropWhile isSpace _ c last

/-- Trimming changes nothing exactly if there is no white space at either end. -/
theorem trim_eq_self_iff : trim cs = cs ↔
    (∀ c ∈ cs.head?, isSpace c = false) ∧ ∀ c ∈ cs.getLast?, isSpace c = false := by
  refine ⟨fun same => ⟨fun c first => ?_, fun c last => ?_⟩, fun ⟨front, back⟩ => ?_⟩
  · exact head?_trim (by rw [same]; exact first)
  · exact getLast?_trim (by rw [same]; exact last)
  · have start : trimStart cs = cs := dropWhile_append_rest (List.forall_mem_nil _) front
    have back : ∀ c ∈ cs.reverse.head?, isSpace c = false := by rwa [List.head?_reverse]
    have ends : cs.reverse.dropWhile isSpace = cs.reverse :=
      dropWhile_append_rest (List.forall_mem_nil _) back
    rw [trim, start, trimEnd, ends, List.reverse_reverse]

theorem trim_of_all (solid : ∀ c ∈ cs, isSpace c = false) : trim cs = cs :=
  trim_eq_self_iff.mpr ⟨fun c first => solid c (List.mem_of_head? first),
    fun c last => solid c (List.mem_of_getLast? last)⟩

theorem trim_trim (cs : List Char) : trim (trim cs) = trim cs :=
  trim_eq_self_iff.mpr ⟨fun _ => head?_trim, fun _ => getLast?_trim⟩

theorem trim_isInfix (cs : List Char) : trim cs <:+: cs :=
  (dropEndWhile_isPrefix isSpace (trimStart cs)).isInfix.trans
    (List.dropWhile_suffix isSpace).isInfix

theorem trim_space (blank : isSpace c = true) (cs : List Char) : trim (c :: cs) = trim cs := by
  rw [trim, trimStart, List.dropWhile_cons_of_pos blank]
  rfl

/-- Nothing is trimmed in front of a character that is no white space. -/
theorem trim_cons (solid : isSpace c = false) (cs : List Char) : ∃ more, trim (c :: cs) = c :: more := by
  have ends : dropEndWhile isSpace ([] ++ [c] ++ cs) = [] ++ [c] ++ dropEndWhile isSpace cs :=
    dropEndWhile_append_word (by simpa using solid) (List.cons_ne_nil c [])
  exact ⟨_, by rw [trim, Time.trimStart_cons solid]; exact ends⟩

/-! ### Brackets -/

/-- The depth of brackets behind a text; none where a bracket closes nothing or a comma stands
outside of all brackets. -/
def nesting? (depth : Nat) : List Char → Option Nat
  | [] => some depth
  | c :: rest =>
    if c == '(' || c == '<' then nesting? (depth + 1) rest
    else if c == ')' || c == '>' then if depth = 0 then none else nesting? (depth - 1) rest
    else if c == ',' && depth == 0 then none
    else nesting? depth rest

/-- The characters that decide where a text is cut. -/
def cutMarks : List Char :=
  ['(', ')', '<', '>', ',']

theorem nesting?_append (plain : ∀ c ∈ cs, c ∉ cutMarks) (d : Nat) (rest : List Char) :
    nesting? d (cs ++ rest) = nesting? d rest := by
  induction cs with
  | nil => rfl
  | cons c cs ih =>
    obtain ⟨here, later⟩ := List.forall_mem_cons.mp plain
    simp only [cutMarks, List.mem_cons, List.not_mem_nil, or_false, not_or] at here
    rw [List.cons_append, nesting?]
    simp [here, ih later]

theorem nesting?_of_plain (plain : ∀ c ∈ cs, c ∉ cutMarks) (d : Nat) : nesting? d cs = some d := by
  have whole := nesting?_append plain d []
  rwa [List.append_nil] at whole

/-! ### Pieces -/

/-- A text without a comma outside of brackets is one piece with what follows it. -/
theorem topLevelFrom_append (whole : nesting? d piece = some e) (current rest : List Char) :
    topLevelFrom d current (piece ++ rest) = topLevelFrom e (piece.reverse ++ current) rest := by
  induction piece generalizing d current with
  | nil => rw [Option.some.inj whole]; rfl
  | cons c piece ih =>
    rw [nesting?] at whole
    rw [List.cons_append, topLevelFrom, List.reverse_cons, List.append_assoc, List.singleton_append]
    split
    · rename_i opens
      rw [if_pos opens] at whole
      exact ih whole _
    · rename_i opens
      rw [if_neg opens] at whole
      split
      · rename_i closes
        rw [if_pos closes] at whole
        split at whole
        · contradiction
        · exact ih whole _
      · rename_i closes
        rw [if_neg closes] at whole
        split
        · rename_i comma
          rw [if_pos comma] at whole
          contradiction
        · rename_i comma
          rw [if_neg comma] at whole
          exact ih whole _

/-- White space in front of a piece is trimmed with it. -/
theorem topLevelFrom_space (blank : isSpace c = true) (d : Nat) (current cs : List Char) :
    topLevelFrom d (current ++ [c]) cs = topLevelFrom d current cs := by
  have trimmed : ∀ current : List Char,
      trim (current ++ [c]).reverse = trim current.reverse := fun current => by
    rw [List.reverse_append]
    exact trim_space blank _
  induction cs generalizing d current with
  | nil => rw [topLevelFrom, topLevelFrom, trimmed]
  | cons e cs ih =>
    rw [topLevelFrom, topLevelFrom, trimmed, ← List.cons_append, ih, ih, ih]

/-- The first piece begins with what has been read, unless that is white space. -/
theorem topLevelFrom_first (solid : isSpace c = false) (d : Nat) (current cs : List Char) :
    ∃ more others, topLevelFrom d (current ++ [c]) cs = (c :: more) :: others := by
  have first : ∀ current : List Char, ∃ more, trim (current ++ [c]).reverse = c :: more :=
    fun current => by
      rw [List.reverse_append]
      exact trim_cons solid _
  induction cs generalizing d current with
  | nil =>
    obtain ⟨more, trimmed⟩ := first current
    exact ⟨more, [], by rw [topLevelFrom, trimmed]⟩
  | cons e cs ih =>
    rw [topLevelFrom]
    split
    · exact ih _ (e :: current)
    · split
      · exact ih _ (e :: current)
      · split
        · obtain ⟨more, trimmed⟩ := first current
          exact ⟨more, _, by rw [trimmed]⟩
        · exact ih _ (e :: current)

theorem topLevel_first (solid : isSpace c = false) (plain : c ∉ cutMarks) (cs : List Char) :
    ∃ more others, topLevel (c :: cs) = (c :: more) :: others := by
  simp only [cutMarks, List.mem_cons, List.not_mem_nil, or_false, not_or] at plain
  have first := topLevelFrom_first solid 0 [] cs
  simpa [topLevel, topLevelFrom, plain] using first

theorem topLevel_whole (whole : nesting? 0 piece = some 0) : topLevel piece = [trim piece] := by
  have read := topLevelFrom_append whole [] []
  simpa [topLevel, topLevelFrom] using read

theorem topLevel_comma (whole : nesting? 0 piece = some 0) (rest : List Char) :
    topLevel (piece ++ ',' :: rest) = trim piece :: topLevel rest := by
  rw [topLevel, topLevelFrom_append whole]
  simp [topLevelFrom, topLevel]

theorem topLevel_space (blank : isSpace c = true) (cs : List Char)
    (plain : c ∉ cutMarks) : topLevel (c :: cs) = topLevel cs := by
  simp only [cutMarks, List.mem_cons, List.not_mem_nil, or_false, not_or] at plain
  have space := topLevelFrom_space blank 0 [] cs
  rw [List.nil_append] at space
  simp [topLevel, topLevelFrom, plain, space]

/-! ### Numbers -/

theorem digits?_eq_decimalValue (digits : ∀ c ∈ cs, c.isDigit = true) (nonempty : cs ≠ []) :
    digits? 10 cs = some (decimalValue cs) := by
  have step : ∀ (cs : List Char) (n : Nat), (∀ c ∈ cs, c.isDigit = true) →
      cs.foldl (fun n c => do
        let n ← n
        let d ← digitValue? c
        if d < 10 then some (10 * n + d) else none) (some n) =
        some (cs.foldl (fun n c => 10 * n + (c.toNat - '0'.toNat)) n) := by
    intro cs
    induction cs with
    | nil => exact fun _ _ => rfl
    | cons c cs ih =>
      intro n digits
      obtain ⟨here, later⟩ := List.forall_mem_cons.mp digits
      have value : digitValue? c = some (c.toNat - '0'.toNat) := if_pos here
      have small : c.toNat - '0'.toNat < 10 := by
        have range := here
        rw [Char.isDigit, Bool.and_eq_true, decide_eq_true_iff, decide_eq_true_iff] at range
        have upper : c.toNat ≤ 57 := range.2
        have zero : '0'.toNat = 48 := rfl
        omega
      have next : (digitValue? c).bind (fun d => if d < 10 then some (10 * n + d) else none) =
          some (10 * n + (c.toNat - '0'.toNat)) := by
        rw [value, Option.bind_some, if_pos small]
      rw [List.foldl_cons, List.foldl_cons, ← ih _ later, ← next]
      rfl
  have filled : cs.isEmpty = false := by simpa using nonempty
  rw [digits?, filled]
  exact step cs 0 digits

theorem toList_toString (n : Nat) : (toString n).toList = Nat.toDigits 10 n := by
  simp [Nat.toString_eq_repr]

theorem isDigit_of_mem_toString {n : Nat} (member : c ∈ (toString n).toList) : c.isDigit = true :=
  Nat.isDigit_of_mem_toDigits (by decide) (by decide) (toList_toString n ▸ member)

theorem word32?_toString (n : UInt32) : word32? (toString n.toNat).toList = some n := by
  have digits : ∀ c ∈ (toString n.toNat).toList, c.isDigit = true := fun c =>
    isDigit_of_mem_toString
  have nonempty : (toString n.toNat).toList ≠ [] := toList_toString _ ▸ Nat.toDigits_ne_nil
  have unsigned : after? ['+'] (toString n.toNat).toList = none := by
    obtain ⟨c, cs, same⟩ := List.exists_cons_of_ne_nil nonempty
    have digit := digits c (same ▸ List.mem_cons_self)
    have other : '+' ≠ c := by
      rintro rfl
      contradiction
    rw [same, after?, if_neg (by simpa using other)]
  have number : digits? 10 (toString n.toNat).toList = some n.toNat := by
    rw [digits?_eq_decimalValue digits nonempty, toList_toString, decimalValue_toDigits]
  have all : (toString n.toNat).toList.all Char.isDigit = true := List.all_eq_true.mpr digits
  rw [word32?, unsigned, Option.getD_none]
  simp only [all, Bool.not_true, Bool.false_eq_true, if_false, number, Option.bind_some]
  rw [if_pos n.toNat_lt, UInt32.ofNat_toNat]

/-! ### Upper case -/

theorem upper_append (a b : List Char) : upper (a ++ b) = upper a ++ upper b :=
  List.flatMap_append

/-- What is cut off at the ends does not come back in upper case. -/
theorem length_upper_trim_le (cs : List Char) : (upper (trim cs)).length ≤ (upper cs).length := by
  obtain ⟨front, back, whole⟩ := trim_isInfix cs
  have cased := congrArg (fun cs => (upper cs).length) whole
  simp only [upper_append, List.length_append] at cased
  omega

end LakeSchema.Text
