import LakeSchema.Proofs.Sql.Identifier

/-!
# Reading names and literals back

A dotted name is read from left to right: a part is a plain name up to the next dot, or all that
stands between backticks, where two in a row are one of the name. A literal is read up to its closing
quote. Whatever is quoted can be read back (`quoted_reads_back`).
-/

namespace LakeSchema.Sql

/-! ### Dotted names -/

/-- A part of a dotted name, and whether it stood between backticks. -/
structure NamePart where
  quoted : Bool
  text : String
deriving DecidableEq

/-- How far the reading of a dotted name has come. What was read of a part stands last character
first. -/
inductive NameReading where
  | front
  | plain (read : List Char)
  | quoted (read : List Char)
  /-- Behind a backtick, which ends the part unless it is the first of two. -/
  | behindTick (read : List Char)

/-- The parts of a dotted name that is read to its end. -/
def nameParts? : NameReading → List Char → Option (List NamePart)
  | .front, [] => none
  | .front, c :: rest =>
    if c == backtick then nameParts? (.quoted []) rest
    else if Text.isIdentifierStart c then nameParts? (.plain [c]) rest
    else none
  | .plain read, [] => some [⟨false, String.ofList read.reverse⟩]
  | .plain read, c :: rest =>
    if c == '.' then (nameParts? .front rest).map (⟨false, String.ofList read.reverse⟩ :: ·)
    else if Text.isIdentifierPart c then nameParts? (.plain (c :: read)) rest
    else none
  | .quoted _, [] => none
  | .quoted read, c :: rest =>
    if c == backtick then nameParts? (.behindTick read) rest
    else nameParts? (.quoted (c :: read)) rest
  | .behindTick read, [] => some [⟨true, String.ofList read.reverse⟩]
  | .behindTick read, c :: rest =>
    if c == backtick then nameParts? (.quoted (backtick :: read)) rest
    else if c == '.' then (nameParts? .front rest).map (⟨true, String.ofList read.reverse⟩ :: ·)
    else none

/-- What stands behind a part: nothing, or a dot and further parts. -/
def partsBehind? (part : NamePart) : List Char → Option (List NamePart)
  | [] => some [part]
  | c :: rest => if c == '.' then (nameParts? .front rest).map (part :: ·) else none

variable {cs read rest : List Char} {name : String}

theorem nameParts?_plain (plain : ∀ c ∈ cs, Text.isIdentifierPart c = true) :
    nameParts? (.plain read) (cs ++ rest) = nameParts? (.plain (cs.reverse ++ read)) rest := by
  induction cs generalizing read with
  | nil => rfl
  | cons c cs ih =>
    obtain ⟨here, later⟩ := List.forall_mem_cons.mp plain
    have inside : (c == '.') = false := by
      refine beq_false_of_ne ?_
      rintro rfl
      cases here
    rw [List.cons_append, nameParts?, inside, if_neg Bool.false_ne_true, if_pos here, ih later,
      List.reverse_cons, List.append_assoc]
    rfl

theorem nameParts?_quoted : nameParts? (.quoted read)
    (Text.replaceChar backtick [backtick, backtick] cs ++ rest) =
      nameParts? (.quoted (cs.reverse ++ read)) rest := by
  induction cs generalizing read with
  | nil => rfl
  | cons c cs ih =>
    rw [List.reverse_cons, List.append_assoc, List.singleton_append, ← ih]
    by_cases tick : c = backtick
    · subst tick
      rfl
    · simp [Text.replaceChar, nameParts?, tick]

theorem nameParts?_plain_end (dotted : ∀ c ∈ rest.head?, c = '.') :
    nameParts? (.plain read) rest = partsBehind? ⟨false, String.ofList read.reverse⟩ rest := by
  cases rest with
  | nil => rfl
  | cons c rest =>
    obtain rfl := dotted c rfl
    rfl

theorem nameParts?_quoted_end (dotted : ∀ c ∈ rest.head?, c = '.') :
    nameParts? (.quoted read) (backtick :: rest) =
      partsBehind? ⟨true, String.ofList read.reverse⟩ rest := by
  cases rest with
  | nil => rfl
  | cons c rest =>
    obtain rfl := dotted c rfl
    rfl

/-- A name as it is read back: plain only if it is no reserved word. -/
def writtenPart (name : String) : NamePart :=
  ⟨!(isPlainName name.toList && !isReserved name), name⟩

theorem nameParts?_quoteIdentifier (name : String) (dotted : ∀ c ∈ rest.head?, c = '.') :
    nameParts? .front ((quoteIdentifier name).toList ++ rest) =
      partsBehind? (writtenPart name) rest := by
  unfold quoteIdentifier writtenPart
  split
  · rename_i plain
    have letters := (Bool.and_eq_true_iff.mp plain).1
    rw [plain]
    obtain ⟨cs, rfl⟩ : ∃ cs, name = String.ofList cs := ⟨_, String.ofList_toList.symm⟩
    rw [String.toList_ofList] at letters ⊢
    cases cs with
    | nil => cases letters
    | cons c cs =>
      obtain ⟨start, parts⟩ := Bool.and_eq_true_iff.mp letters
      have unquoted : (c == backtick) = false := by
        refine beq_false_of_ne ?_
        rintro rfl
        cases start
      rw [List.cons_append, nameParts?, unquoted, if_neg Bool.false_ne_true, if_pos start,
        nameParts?_plain (List.all_eq_true.mp parts), nameParts?_plain_end dotted]
      simp
  · rename_i quoted
    rw [Bool.not_eq_true] at quoted
    rw [String.toList_ofList, inBackticks, List.cons_append, List.cons_append, List.append_assoc,
      nameParts?, if_pos (beq_self_eq_true _), nameParts?_quoted, List.singleton_append,
      nameParts?_quoted_end dotted, quoted]
    simp

/-- A dotted name is read back part by part. -/
theorem nameParts?_quoteQualified (parts : List String) (nonempty : parts ≠ []) :
    nameParts? .front (quoteQualified parts).toList = some (parts.map writtenPart) := by
  induction parts with
  | nil => contradiction
  | cons name parts ih =>
    cases parts with
    | nil =>
      have ends : ∀ c ∈ ([] : List Char).head?, c = '.' := nofun
      have read := nameParts?_quoteIdentifier name ends
      rwa [List.append_nil] at read
    | cons next parts =>
      have dot : ".".toList = ['.'] := rfl
      have later := ih (List.cons_ne_nil _ _)
      unfold quoteQualified at later ⊢
      rw [List.map_cons, List.map_cons, String.intercalate_cons_cons, String.toList_append,
        String.toList_append, dot, List.append_assoc, List.singleton_append,
        nameParts?_quoteIdentifier name (by simp)]
      rw [List.map_cons] at later
      rw [partsBehind?, later]
      rfl

/-! ### Literals -/

/-- What a character says behind a backslash. -/
def escaped (c : Char) : Char :=
  match c with
  | '0' => '\x00'
  | 'b' => '\x08'
  | 'n' => '\n'
  | 'r' => '\r'
  | 't' => '\t'
  | 'Z' => '\x1a'
  | other => other

/-- The rest of a literal up to its closing quote, behind which nothing may stand. -/
def literalRest? (behindBackslash : Bool) : List Char → Option (List Char)
  | [] => none
  | c :: rest =>
    if behindBackslash then (literalRest? false rest).map (escaped c :: ·)
    else if c == '\\' then literalRest? true rest
    else if c == '\'' then if rest.isEmpty then some [] else none
    else (literalRest? false rest).map (c :: ·)

/-- What a literal says, if a text is one. -/
def literal? : List Char → Option String
  | [] => none
  | c :: rest => if c == '\'' then (literalRest? false rest).map String.ofList else none

theorem literalRest?_escapeLiteral (cs : List Char) :
    literalRest? false (escapeLiteral cs ++ ['\'']) = some cs := by
  induction cs with
  | nil => rfl
  | cons c cs ih =>
    rw [escapeLiteral, List.flatMap_cons, List.append_assoc, ← escapeLiteral]
    split
    · rename_i mark
      have itself : escaped c = c := by
        rcases Bool.or_eq_true_iff.mp mark with same | same <;> rw [beq_iff_eq.mp same] <;> rfl
      simp [literalRest?, ih, itself]
    · rename_i other
      simp_all [literalRest?]

/-- Reading takes back what quoting did, to any name and any text: a dotted name gives its parts, of
which none that stands plain is a reserved word, and a literal gives the text without its control
characters. -/
theorem quoted_reads_back (parts : List String) (nonempty : parts ≠ []) (text : String) :
    (∃ names, nameParts? .front (quoteQualified parts).toList = some names ∧
      names.map (·.text) = parts ∧
        ∀ part ∈ names, part.quoted = false → isReserved part.text = false) ∧
    literal? (stringLiteral text).toList = some (withoutControls text) := by
  refine ⟨⟨_, nameParts?_quoteQualified parts nonempty, ?_, ?_⟩, ?_⟩
  · rw [List.map_map]
    exact List.map_id' _
  · intro part member plain
    obtain ⟨name, -, rfl⟩ := List.mem_map.mp member
    simp_all [writtenPart]
  · rw [stringLiteral, String.toList_ofList, List.cons_append, literal?,
      if_pos (beq_self_eq_true _), literalRest?_escapeLiteral, Option.map_some, String.ofList_toList]

/-- Names with dots and backticks, an empty one and a reserved word, and a text with all that has to
be escaped. -/
theorem odd_names_read_back :
    ["`", "a.`b", "", "Date", "_1"] ≠ [] ∧
      (∃ names,
        nameParts? .front (quoteQualified ["`", "a.`b", "", "Date", "_1"]).toList = some names ∧
        names.map (·.text) = ["`", "a.`b", "", "Date", "_1"] ∧
        ∀ part ∈ names, part.quoted = false → isReserved part.text = false) ∧
      literal? (stringLiteral "it's\x07 \\n").toList = some "it's \\n" := by
  have some : ["`", "a.`b", "", "Date", "_1"] ≠ [] := List.cons_ne_nil _ _
  obtain ⟨names, text⟩ := quoted_reads_back _ some "it's\x07 \\n"
  have clean : withoutControls "it's\x07 \\n" = "it's \\n" := by decide
  exact ⟨some, names, clean ▸ text⟩

end LakeSchema.Sql
