import LakeSchema.Check.Table
import LakeSchema.Compile.Ddl
import LakeSchema.Proofs.Compile.ClosedStatements
import LakeSchema.Proofs.Document.Canonical
import LakeSchema.Proofs.Document.FieldForm
import LakeSchema.Proofs.Document.Parameters
import LakeSchema.Proofs.Sql.TableReference
import LakeSchema.Proofs.Text.Cutting
import LakeSchema.Proofs.Text.TopLevel

/-!
# Type texts read back

The type of a column is written as one text, and normalising takes such texts apart. A document field
with the text of a column type gets the keyword and the parameters of that column back, except where a
struct has a member whose name stands between backticks and where the qualifier of an interval ends in
the brackets that it opens first (`field_readsBack_iff`).
-/

namespace LakeSchema

open Json (Members)

/-! ### Keywords and brackets -/

namespace TypeText

variable {c opening : Char} {cs front inner : List Char} {word text : String}

/-- The bracket that closes an opening one. -/
def closing (opening : Char) : Char :=
  if opening == '(' then ')' else '>'

/-- Whether a text ends with the bracket that closes its first opening one. -/
def endsBracketed (cs : List Char) : Bool :=
  match cs.find? isOpening with
  | some opening => cs.getLast? == some (closing opening)
  | none => false

theorem isOpening_closing (opening : Char) : isOpening (closing opening) = false := by
  unfold closing
  split <;> rfl

theorem upper_closing (opening : Char) : Text.upper [closing opening] = [closing opening] := by
  unfold closing
  split <;> decide

theorem bracketed?_append (plain : ∀ c ∈ front, isOpening c = false) (opens : isOpening opening = true)
    (inner : List Char) :
    bracketed? (front ++ opening :: (inner ++ [closing opening])) =
      some ⟨String.ofList (Text.upper (Text.trim front)), some (String.ofList (Text.trim inner))⟩ := by
  have all : ∀ c ∈ front, (!isOpening c) = true := by simpa using plain
  have stops : (!isOpening opening) = false := by simpa using opens
  have word : (front ++ opening :: (inner ++ [closing opening])).takeWhile (!isOpening ·) = front :=
    Text.takeWhile_append_word all (by simpa using opens)
  have rest : (front ++ opening :: (inner ++ [closing opening])).dropWhile (!isOpening ·) =
      opening :: (inner ++ [closing opening]) :=
    Text.dropWhile_append_rest all (by simpa using opens)
  have within : Text.before? [closing opening] (inner ++ [closing opening]) = some inner := by
    rw [Text.before?, List.reverse_append]
    simp [Text.after?]
  rw [bracketed?, word, rest]
  show (Text.before? [closing opening] (inner ++ [closing opening])).map _ = _
  rw [within]
  rfl

theorem exists_of_endsBracketed (ends : endsBracketed cs = true) : ∃ front opening inner,
    cs = front ++ opening :: (inner ++ [closing opening]) ∧ (∀ c ∈ front, isOpening c = false) ∧
      isOpening opening = true := by
  unfold endsBracketed at ends
  split at ends
  · rename_i opening first
    obtain ⟨opens, front, rest, rfl, plain⟩ := List.find?_eq_some_iff_append.mp first
    have last := eq_of_beq ends
    rw [List.getLast?_append, List.getLast?_cons] at last
    rcases List.eq_nil_or_concat rest with rfl | ⟨inner, close, rfl⟩
    · have same : opening = closing opening := by simpa using last
      have other := isOpening_closing opening
      rw [← same, opens] at other
      contradiction
    · have same : close = closing opening := by simpa using last
      exact ⟨front, opening, inner, by rw [same, List.concat_eq_append], by simpa using plain, opens⟩
  · contradiction

theorem endsBracketed_of_bracketed? (found : bracketed? cs ≠ none) : endsBracketed cs = true := by
  unfold bracketed? at found
  have first := List.find?_eq_head?_dropWhile_not isOpening cs
  have whole : cs.takeWhile (!isOpening ·) ++ cs.dropWhile (!isOpening ·) = cs :=
    List.takeWhile_append_dropWhile
  split at found
  · contradiction
  · rename_i opening rest dropped
    rw [dropped] at first whole
    have last : cs.getLast? = some (closing opening) := by
      rcases List.eq_nil_or_concat rest with rfl | ⟨inner, close, rfl⟩
      · exact absurd rfl found
      · have same : closing opening = close := by
          by_contra differ
          refine found (Option.map_eq_none_iff.mpr ?_)
          rw [← closing, Text.before?, List.concat_eq_append, List.reverse_append]
          simp [Text.after?, differ]
        rw [← whole, List.getLast?_append, List.getLast?_cons, same]
        simp
    rw [endsBracketed, first]
    simp [last]

/-- What stands in front of the parameters of a type: a word as the keywords are. -/
structure Leading (word : String) : Prop where
  plain : ∀ c ∈ word.toList, isOpening c = false
  trimmed : Text.trim word.toList = word.toList
  upper : Text.upper word.toList = word.toList
  nonempty : word.toList ≠ []

theorem leading_keyword (type : DataType) : Leading type.keyword := by
  cases type <;> exact ⟨Text.forall_of_all (by decide), by decide, by decide, by decide⟩

/-- A type text with its parameters in brackets is taken apart at the brackets. -/
theorem ofText_bracketed (leading : Leading word) (opens : isOpening opening = true)
    (same : text.toList = word.toList ++ opening :: (inner ++ [closing opening])) :
    ofText text = ⟨word, some (String.ofList (Text.trim inner))⟩ := by
  have whole : Text.trim text.toList = text.toList := by
    refine Text.trim_eq_self_iff.mpr ⟨fun c first => ?_, fun c last => ?_⟩
    · obtain ⟨d, rest, word⟩ := List.exists_cons_of_ne_nil leading.nonempty
      have solid := (Text.trim_eq_self_iff.mp leading.trimmed).1
      rw [same, word] at first
      rw [word] at solid
      exact solid c first
    · rw [same, List.getLast?_append, List.getLast?_cons, List.getLast?_append] at last
      obtain rfl : closing opening = c := by simpa using last
      unfold closing
      split <;> decide
  rw [ofText]
  simp only [whole]
  rw [same, bracketed?_append leading.plain opens, Option.getD_some, leading.trimmed, leading.upper,
    String.ofList_toList]

theorem getLast?_interval (nonempty : cs ≠ []) : ("INTERVAL ".toList ++ cs).getLast? = cs.getLast? := by
  obtain ⟨c, rest, rfl⟩ := List.exists_cons_of_ne_nil nonempty
  rw [List.getLast?_append, List.getLast?_cons]
  rfl

theorem trim_interval (settled : Text.trim cs = cs) (nonempty : cs ≠ []) :
    Text.trim ("INTERVAL ".toList ++ cs) = "INTERVAL ".toList ++ cs :=
  Text.trim_eq_self_iff.mpr
    ⟨by simp; decide, by rw [getLast?_interval nonempty]; exact (Text.trim_eq_self_iff.mp settled).2⟩

/-- The qualifier of an interval is found behind the keyword, unless it ends in the brackets that it
opens first. -/
theorem ofText_interval (settled : Text.trim cs = cs) (upper : Text.upper cs = cs)
    (nonempty : cs ≠ []) (plain : endsBracketed cs = false)
    (same : text.toList = "INTERVAL ".toList ++ cs) :
    ofText text = ⟨"INTERVAL", some (String.ofList cs)⟩ := by
  have unbracketed : bracketed? ("INTERVAL ".toList ++ cs) = none := by
    by_contra found
    have ends := endsBracketed_of_bracketed? found
    rw [endsBracketed, List.find?_append, getLast?_interval nonempty] at ends
    exact absurd (ends.symm.trans plain) (by decide)
  have cased : Text.upper ("INTERVAL ".toList ++ cs) = "INTERVAL ".toList ++ cs := by
    rw [Text.upper_append, upper]
    rfl
  have behind : Text.after? "INTERVAL ".toList ("INTERVAL ".toList ++ cs) = some cs := rfl
  rw [ofText]
  simp only [same, trim_interval settled nonempty]
  rw [unbracketed, Option.getD_none, cased, behind]
  simp only [settled]

/-- A qualifier that ends in its first brackets is lost: only what stands inside of them is taken for
parameters. -/
theorem parameters_ofText_interval (settled : Text.trim cs = cs)
    (plain : ∀ c ∈ front, isOpening c = false) (opens : isOpening opening = true)
    (bracketed : cs = front ++ opening :: (inner ++ [closing opening]))
    (same : text.toList = "INTERVAL ".toList ++ cs) :
    (ofText text).parameters = some (String.ofList (Text.trim inner)) := by
  have before : ∀ c ∈ "INTERVAL ".toList ++ front, isOpening c = false :=
    List.forall_mem_append.mpr ⟨Text.forall_of_all (by decide), plain⟩
  have nonempty : cs ≠ [] := by simp [bracketed]
  rw [ofText]
  simp only [same, trim_interval settled nonempty]
  rw [bracketed, ← List.append_assoc, bracketed?_append before opens]
  rfl

end TypeText

/-! ### Settled type texts -/

/-- A type text that is neither trimmed nor put in upper case when it is written, and stays one text
among others with commas between them. -/
structure SettledType (text : String) : Prop where
  solid : Text.isBlank text = false
  trimmed : Text.trimmed text = text
  upper : Text.uppered text = text
  whole : Text.nesting? 0 text.toList = some 0

namespace SettledType

variable {text : String}

theorem trim (settled : SettledType text) : Text.trim text.toList = text.toList := by
  have same := congrArg String.toList settled.trimmed
  rwa [Text.trimmed, String.toList_ofList] at same

theorem upper_toList (settled : SettledType text) : Text.upper text.toList = text.toList := by
  have same := congrArg String.toList settled.upper
  rwa [Text.uppered, String.toList_ofList] at same

theorem ne_nil (settled : SettledType text) : text.toList ≠ [] := by
  intro empty
  have solid := settled.solid
  rw [Text.isBlank, empty] at solid
  contradiction

theorem nestedType (settled : SettledType text) : nestedType text = text := by
  rw [LakeSchema.nestedType, settled.trim, settled.upper_toList, String.ofList_toList]

end SettledType

namespace TypeParameters

/-- The types that parameters hold as text. -/
def typeTexts : TypeParameters → List String
  | element type => [type]
  | keyValue key value => [key, value]
  | struct members => members.map StructMember.dataType
  | qualifier text => [text]
  | _ => []

variable {inner : String}

/-! ### Numbers -/

theorem trim_toString (n : Nat) : Text.trim (toString n).toList = (toString n).toList :=
  Text.trim_of_all fun _ member => Time.isSpace_of_isDigit (Text.isDigit_of_mem_toString member)

theorem nesting?_toString (n : Nat) : Text.nesting? 0 (toString n).toList = some 0 := by
  refine Text.nesting?_of_plain (fun c member => ?_) 0
  have digit := Text.isDigit_of_mem_toString member
  simp only [Text.cutMarks, List.mem_cons, List.not_mem_nil, or_false, not_or]
  refine ⟨?_, ?_, ?_, ?_, ?_⟩ <;> (rintro rfl; contradiction)

theorem trim_decimal (precision scale : UInt32) :
    Text.trim (toString precision.toNat ++ "," ++ toString scale.toNat).toList =
      (toString precision.toNat ++ "," ++ toString scale.toNat).toList := by
  refine Text.trim_of_all fun c member => ?_
  rw [String.toList_append, String.toList_append, List.mem_append, List.mem_append] at member
  rcases member with (digit | comma) | digit
  · exact Time.isSpace_of_isDigit (Text.isDigit_of_mem_toString digit)
  · obtain rfl := List.mem_singleton.mp comma
    rfl
  · exact Time.isSpace_of_isDigit (Text.isDigit_of_mem_toString digit)

theorem ofText?_decimal (precision scale : UInt32) :
    ofText? "DECIMAL" (toString precision.toNat ++ "," ++ toString scale.toNat) =
      some (decimal precision scale) := by
  have pieces : Text.topLevel ((toString precision.toNat).toList ++ ',' :: (toString scale.toNat).toList) =
      [(toString precision.toNat).toList, (toString scale.toNat).toList] := by
    rw [Text.topLevel_comma (nesting?_toString _), Text.topLevel_whole (nesting?_toString _),
      trim_toString, trim_toString]
  have text : (toString precision.toNat ++ "," ++ toString scale.toNat).toList =
      (toString precision.toNat).toList ++ ',' :: (toString scale.toNat).toList := by
    simp only [String.toList_append, List.append_assoc]
    rfl
  have settled := trim_decimal precision scale
  rw [text] at settled
  rw [ofText?]
  simp only [text, settled, pieces, Text.word32?_toString]
  simp

/-- The types whose one parameter is a number, with the parameter that they take. -/
def numbered : List (String × (UInt32 → TypeParameters)) :=
  [("VARCHAR", .length), ("CHAR", .length), ("GEOGRAPHY", .srid), ("GEOMETRY", .srid)]

theorem ofText?_numbered {keyword : String} {shape : UInt32 → TypeParameters}
    (listed : (keyword, shape) ∈ numbered) (n : UInt32) :
    ofText? keyword (toString n.toNat) = some (shape n) := by
  have solid : (toString n.toNat).toList.isEmpty = false := by
    rw [Text.toList_toString, List.isEmpty_eq_false_iff]
    exact Nat.toDigits_ne_nil
  simp only [numbered, List.mem_cons, Prod.mk.injEq, List.not_mem_nil, or_false] at listed
  rcases listed with ⟨rfl, rfl⟩ | ⟨rfl, rfl⟩ | ⟨rfl, rfl⟩ | ⟨rfl, rfl⟩ <;>
    (rw [ofText?]; simp only [trim_toString, solid, Text.word32?_toString]; simp)

/-! ### Types of other types -/

variable {keyword key value : String}

theorem ofText?_element (settled : SettledType inner) : ofText? "ARRAY" inner = some (element inner) := by
  have solid : inner.toList.isEmpty = false := List.isEmpty_eq_false_iff.mpr settled.ne_nil
  rw [ofText?]
  simp only [settled.trim, solid, settled.upper_toList, String.ofList_toList]
  simp

theorem ofText?_qualifier (settled : SettledType inner) :
    ofText? "INTERVAL" inner = some (qualifier inner) := by
  have solid : inner.toList.isEmpty = false := List.isEmpty_eq_false_iff.mpr settled.ne_nil
  rw [ofText?]
  simp only [settled.trim, solid, settled.upper_toList, String.ofList_toList]
  simp

theorem upper_of_ofText?_qualifier {qualifier : String}
    (read : ofText? "INTERVAL" inner = some (.qualifier qualifier)) :
    Text.upper (Text.trim inner.toList) = qualifier.toList := by
  rw [ofText?] at read
  split at read
  · contradiction
  · have same : String.ofList (Text.upper (Text.trim inner.toList)) = qualifier := by simpa using read
    rw [← same, String.toList_ofList]

/-- Settled types with commas between them have no white space at the ends. -/
theorem trim_between {a b : List Char} (first : ∀ c ∈ a.head?, Text.isSpace c = false) (front : a ≠ [])
    (last : ∀ c ∈ b.getLast?, Text.isSpace c = false) (back : b ≠ []) (middle : List Char) :
    Text.trim (a ++ middle ++ b) = a ++ middle ++ b := by
  obtain ⟨c, rest, rfl⟩ := List.exists_cons_of_ne_nil front
  obtain ⟨d, rest', rfl⟩ := List.exists_cons_of_ne_nil back
  refine Text.trim_eq_self_iff.mpr ⟨by simpa using first, fun e ending => last e ?_⟩
  rw [List.getLast?_append, List.getLast?_cons] at ending
  rw [List.getLast?_cons]
  exact ending

theorem ofText?_keyValue (first : SettledType key) (second : SettledType value) :
    ofText? "MAP" (key ++ ", " ++ value) = some (keyValue key value) := by
  have text : (key ++ ", " ++ value).toList = key.toList ++ [',', ' '] ++ value.toList := by
    simp only [String.toList_append]
    rfl
  have settled : Text.trim (key.toList ++ [',', ' '] ++ value.toList) =
      key.toList ++ [',', ' '] ++ value.toList :=
    trim_between (Text.trim_eq_self_iff.mp first.trim).1 first.ne_nil
      (Text.trim_eq_self_iff.mp second.trim).2 second.ne_nil _
  have pieces : Text.topLevel (key.toList ++ [',', ' '] ++ value.toList) =
      [key.toList, value.toList] := by
    rw [List.append_assoc, List.cons_append, List.cons_append, List.nil_append,
      Text.topLevel_comma first.whole, Text.topLevel_space (by decide) _ (by decide),
      Text.topLevel_whole second.whole, first.trim, second.trim]
  have solid : (key.toList ++ [',', ' '] ++ value.toList).isEmpty = false := by simp
  rw [ofText?]
  simp only [text, settled, pieces, solid, first.upper_toList, second.upper_toList,
    String.ofList_toList]
  simp

end TypeParameters

/-! ### Members of structs -/

namespace StructMember

variable {m : StructMember} {cs : List Char}

theorem isSpace_of_isPlainName (plain : Sql.isPlainName cs = true) :
    ∀ c ∈ cs, Text.isSpace c = false := fun c member =>
  Query.isSpace_of_isQueryNamePart
    (Query.isQueryNamePart_of_isIdentifierPart (Sql.isIdentifierPart_of_isPlainName plain c member))

/-- A member with a plain name is read back. -/
theorem ofText?_plain (plain : Sql.isPlainName m.name.toList = true) (settled : SettledType m.dataType) :
    ofText? (m.name.toList ++ ':' :: ' ' :: m.dataType.toList) = some m := by
  have apart : ∀ d ∈ [':'], Text.isIdentifierPart d = false :=
    List.forall_mem_singleton.mpr (by decide)
  have free : ':' ∉ m.name.toList := fun member =>
    Sql.not_mem_of_isPlainName plain apart ':' member (List.mem_singleton_self _)
  have name : Text.trim m.name.toList = m.name.toList :=
    Text.trim_of_all (isSpace_of_isPlainName plain)
  have type : Text.trim (' ' :: m.dataType.toList) = m.dataType.toList := by
    rw [Text.trim_space (by decide), settled.trim]
  have named : m.name.toList.isEmpty = false := by
    cases given : m.name.toList with
    | nil => rw [given] at plain; contradiction
    | cons c rest => rfl
  have solid : m.dataType.toList.isEmpty = false := List.isEmpty_eq_false_iff.mpr settled.ne_nil
  simp only [ofText?, Text.cutAt?_append free, Option.some_or, Option.bind_eq_bind, Option.bind_some, name,
    type, named, solid, settled.upper_toList, String.ofList_toList]
  rfl

/-- A member whose text begins with a backtick has a backtick in its name. -/
theorem backtick_of_ofText? (read : ofText? ('\x60' :: cs) = some m) : '\x60' ∈ m.name.toList := by
  have begins : ∀ {left right : List Char},
      (Text.cutAt? ':' ('\x60' :: cs)).or (Text.cutAtSpace? ('\x60' :: cs)) = some (left, right) →
        ∃ more, left = '\x60' :: more := by
    intro left right cut
    rw [Text.cutAt?, if_neg (by decide), Text.cutAtSpace?, if_neg (by decide)] at cut
    rcases Option.or_eq_some_iff.mp cut with colon | ⟨-, space⟩
    · obtain ⟨⟨front, back⟩, -, same⟩ := Option.map_eq_some_iff.mp colon
      exact ⟨front, (Prod.mk.inj same).1.symm⟩
    · obtain ⟨⟨front, back⟩, -, same⟩ := Option.map_eq_some_iff.mp space
      exact ⟨front, (Prod.mk.inj same).1.symm⟩
  obtain ⟨⟨left, right⟩, cut, read⟩ := Option.bind_eq_some_iff.mp read
  obtain ⟨more, rfl⟩ := begins cut
  obtain ⟨kept, trimmed⟩ := Text.trim_cons (c := '\x60') (by decide) more
  simp only [trimmed] at read
  split at read
  · contradiction
  · obtain rfl := Option.some.inj read
    simp

theorem text_toList (settled : SettledType m.dataType) : m.text.toList =
    (Sql.quoteIdentifier m.name).toList ++ ':' :: ' ' :: m.dataType.toList := by
  rw [text, settled.nestedType, String.toList_append, String.toList_append, List.append_assoc]
  rfl

theorem whole_plain (plain : Sql.isPlainName m.name.toList = true) (settled : SettledType m.dataType) :
    Text.nesting? 0 (m.name.toList ++ ':' :: ' ' :: m.dataType.toList) = some 0 := by
  have apart : ∀ d ∈ Text.cutMarks, Text.isIdentifierPart d = false := Text.forall_of_all (by decide)
  rw [Text.nesting?_append (Sql.not_mem_of_isPlainName plain apart)]
  exact settled.whole

theorem trim_plain (plain : Sql.isPlainName m.name.toList = true) (settled : SettledType m.dataType) :
    Text.trim (m.name.toList ++ ':' :: ' ' :: m.dataType.toList) =
      m.name.toList ++ ':' :: ' ' :: m.dataType.toList := by
  have named : m.name.toList ≠ [] := by
    intro empty
    rw [empty] at plain
    contradiction
  have trimmed := TypeParameters.trim_between
    (fun c first => isSpace_of_isPlainName plain c (List.mem_of_head? first)) named
    (Text.trim_eq_self_iff.mp settled.trim).2 settled.ne_nil [':', ' ']
  simpa using trimmed

theorem mapM_cons_eq_some_iff {α β : Type} {f : α → Option β} {x : α} {xs : List α} {y : β}
    {ys : List β} : (x :: xs).mapM f = some (y :: ys) ↔ f x = some y ∧ xs.mapM f = some ys := by
  rw [List.mapM_cons]
  cases f x <;> cases xs.mapM f <;> simp

/-- A name that does not stand in a text as it is has a backtick in front. -/
theorem exists_quoteIdentifier (name : String) :
    Sql.quoteIdentifier name = name ∧ Sql.isPlainName name.toList = true ∨
      ∃ rest, (Sql.quoteIdentifier name).toList = '\x60' :: rest := by
  rcases Sql.quoteIdentifier_toList name with ⟨same, plain⟩ | quoted
  · exact .inl ⟨String.toList_inj.mp same, plain⟩
  · exact .inr ⟨_, quoted⟩

/-- What stands behind the text of the first member: nothing, or a comma and the others. -/
theorem exists_behind (m : StructMember) (rest : List StructMember) :
    ∃ behind, (", ".intercalate ((m :: rest).map text)).toList = m.text.toList ++ behind ∧
      (rest = [] → behind = []) ∧
      (rest ≠ [] → behind = ',' :: ' ' :: (", ".intercalate (rest.map text)).toList) := by
  cases rest with
  | nil => exact ⟨[], by simp, fun _ => rfl, fun some => absurd rfl some⟩
  | cons n rest =>
    refine ⟨_, ?_, fun empty => absurd empty (List.cons_ne_nil n rest), fun _ => rfl⟩
    rw [List.map_cons, List.map_cons, String.intercalate_cons_cons, String.toList_append,
      String.toList_append, List.append_assoc]
    rfl

/-- The text of members is read back exactly if all their names stand in it without backticks. -/
theorem mapM_ofText?_iff {members : List StructMember} (nonempty : members ≠ [])
    (types : ∀ m ∈ members, SettledType m.dataType) (names : ∀ m ∈ members, '\x60' ∉ m.name.toList) :
    (Text.topLevel (", ".intercalate (members.map text)).toList).mapM ofText? = some members ↔
      ∀ m ∈ members, Sql.quoteIdentifier m.name = m.name := by
  induction members with
  | nil => contradiction
  | cons m rest ih =>
    obtain ⟨settled, types⟩ := List.forall_mem_cons.mp types
    obtain ⟨clear, names⟩ := List.forall_mem_cons.mp names
    rw [List.forall_mem_cons]
    obtain ⟨behind, whole, last, more⟩ := exists_behind m rest
    rw [whole, text_toList settled]
    rcases exists_quoteIdentifier m.name with ⟨same, plain⟩ | ⟨quoted, begins⟩
    · rw [same]
      by_cases empty : rest = []
      · subst empty
        rw [last rfl, List.append_nil, Text.topLevel_whole (whole_plain plain settled),
          trim_plain plain settled, mapM_cons_eq_some_iff, ofText?_plain plain settled]
        simp
      · rw [more empty, Text.topLevel_comma (whole_plain plain settled),
          Text.topLevel_space (by decide) _ (by decide), trim_plain plain settled,
          mapM_cons_eq_some_iff, ofText?_plain plain settled, ih empty types names]
        simp
    · have other : Sql.quoteIdentifier m.name ≠ m.name := by
        intro same
        rw [← same, begins] at clear
        exact clear List.mem_cons_self
      refine iff_of_false (fun read => ?_) fun ⟨same, _⟩ => other same
      obtain ⟨piece, others, pieces⟩ := Text.topLevel_first (c := '\x60') (by decide) (by decide)
        (quoted ++ ':' :: ' ' :: m.dataType.toList ++ behind)
      rw [begins, List.cons_append, List.cons_append, pieces, mapM_cons_eq_some_iff] at read
      exact clear (backtick_of_ofText? read.1)

/-- The text of members begins with a name and ends with a type. -/
theorem exists_ends {members : List StructMember} (nonempty : members ≠ [])
    (types : ∀ m ∈ members, SettledType m.dataType) :
    ∃ first ∈ members, ∃ last ∈ members, ∃ middle, (", ".intercalate (members.map text)).toList =
      (Sql.quoteIdentifier first.name).toList ++ middle ++ last.dataType.toList := by
  induction members with
  | nil => contradiction
  | cons m rest ih =>
    obtain ⟨settled, types⟩ := List.forall_mem_cons.mp types
    cases rest with
    | nil =>
      refine ⟨m, List.mem_cons_self, m, List.mem_cons_self, [':', ' '], ?_⟩
      rw [List.map_singleton, String.intercalate_singleton, text_toList settled]
      simp
    | cons n rest =>
      obtain ⟨first, _, last, inside, middle, whole⟩ := ih (List.cons_ne_nil n rest) types
      refine ⟨m, List.mem_cons_self, last, List.mem_cons_of_mem m inside, ':' :: ' ' ::
        m.dataType.toList ++ ", ".toList ++ (Sql.quoteIdentifier first.name).toList ++ middle, ?_⟩
      rw [List.map_cons, List.map_cons, String.intercalate_cons_cons, ← List.map_cons,
        String.toList_append, String.toList_append, whole, text_toList settled]
      simp

theorem trim_members {members : List StructMember} (nonempty : members ≠ [])
    (types : ∀ m ∈ members, SettledType m.dataType) :
    Text.trim (", ".intercalate (members.map text)).toList =
      (", ".intercalate (members.map text)).toList := by
  obtain ⟨first, _, last, inside, middle, whole⟩ := exists_ends nonempty types
  have settled := types last inside
  have solid : (Sql.quoteIdentifier first.name).toList ≠ [] ∧
      ∀ c ∈ (Sql.quoteIdentifier first.name).toList.head?, Text.isSpace c = false := by
    rcases exists_quoteIdentifier first.name with ⟨same, plain⟩ | ⟨rest, begins⟩
    · rw [same]
      refine ⟨fun empty => ?_, fun c begins => isSpace_of_isPlainName plain c (List.mem_of_head? begins)⟩
      rw [empty] at plain
      contradiction
    · rw [begins]
      exact ⟨List.cons_ne_nil _ _, by simp; decide⟩
  rw [whole]
  exact TypeParameters.trim_between solid.2 solid.1 (Text.trim_eq_self_iff.mp settled.trim).2
    settled.ne_nil middle

end StructMember

theorem TypeParameters.ofText?_struct_iff {members : List StructMember} (nonempty : members ≠ [])
    (types : ∀ m ∈ members, SettledType m.dataType) (names : ∀ m ∈ members, '\x60' ∉ m.name.toList) :
    ofText? "STRUCT" (", ".intercalate (members.map StructMember.text)) = some (struct members) ↔
      ∀ m ∈ members, Sql.quoteIdentifier m.name = m.name := by
  have solid : (", ".intercalate (members.map StructMember.text)).toList.isEmpty = false := by
    obtain ⟨first, _, last, inside, middle, whole⟩ := StructMember.exists_ends nonempty types
    rw [whole, List.isEmpty_eq_false_iff]
    exact List.append_ne_nil_of_right_ne_nil _ (types last inside).ne_nil
  rw [← StructMember.mapM_ofText?_iff nonempty types names, ofText?]
  simp only [StructMember.trim_members nonempty types, solid]
  simp

/-! ### Columns -/

namespace Field

variable {f : Field}

/-- A field whose type is accepted and written as it is given. -/
structure TypeSettled (f : Field) : Prop where
  accepted : f.parameterProblem? = none
  structured : ∀ members, f.typeParameters ≠ some (.other members)
  types : ∀ parameters, f.typeParameters = some parameters →
    ∀ text ∈ parameters.typeTexts, SettledType text
  names : ∀ members, f.typeParameters = some (.struct members) →
    ∀ m ∈ members, Name.fieldProblem? m.name = none

/-- The type of a field can be told from its text: names of struct members stand in it without
backticks, and the qualifier of an interval does not end in the brackets that it opens first. -/
def TypeLegible (f : Field) : Prop :=
  match f.typeParameters with
  | some (.struct members) => ∀ m ∈ members, Sql.quoteIdentifier m.name = m.name
  | some (.qualifier text) => TypeText.endsBracketed text.toList = false
  | _ => True

instance (f : Field) : Decidable f.TypeLegible := by
  unfold TypeLegible
  split <;> infer_instance

/-- The type text says the type and the parameters of the field. -/
def TypeTold (f : Field) : Prop :=
  (TypeText.ofText f.columnType).keyword = f.dataType.keyword ∧
    (TypeText.ofText f.columnType).parameters.map (TypeParameters.ofText? f.dataType.keyword) =
      f.typeParameters.map some

theorem clear_of_fieldProblem? {name : String} (accepted : Name.fieldProblem? name = none) :
    '\x60' ∉ name.toList := by
  intro member
  unfold Name.fieldProblem? Name.problem? at accepted
  split at accepted
  · contradiction
  · split at accepted
    · contradiction
    · have allowed := List.find?_eq_none.mp (Option.map_eq_none_iff.mp accepted) _ member
      exact allowed (by decide)

theorem typeTold_iff_of_ofText {inner : String} {parameters : TypeParameters}
    (ofText : TypeText.ofText f.columnType = ⟨f.dataType.keyword, some inner⟩)
    (given : f.typeParameters = some parameters) :
    f.TypeTold ↔ TypeParameters.ofText? f.dataType.keyword inner = some parameters := by
  rw [TypeTold, ofText, given]
  simp

theorem typeTold_bracketed_iff {opening : Char} {inner : String} {parameters : TypeParameters}
    (opens : TypeText.isOpening opening = true)
    (column : f.columnType.toList =
      f.dataType.keyword.toList ++ opening :: (inner.toList ++ [TypeText.closing opening]))
    (settled : Text.trim inner.toList = inner.toList) (given : f.typeParameters = some parameters) :
    f.TypeTold ↔ TypeParameters.ofText? f.dataType.keyword inner = some parameters := by
  refine typeTold_iff_of_ofText ?_ given
  rw [TypeText.ofText_bracketed (TypeText.leading_keyword f.dataType) opens column, settled,
    String.ofList_toList]

theorem typeTold_round_iff {inner : String} {parameters : TypeParameters}
    (column : f.columnType = f.dataType.keyword ++ "(" ++ inner ++ ")")
    (settled : Text.trim inner.toList = inner.toList) (given : f.typeParameters = some parameters) :
    f.TypeTold ↔ TypeParameters.ofText? f.dataType.keyword inner = some parameters :=
  typeTold_bracketed_iff (by decide : TypeText.isOpening '(' = true)
    (by simp [column, TypeText.closing]) settled given

theorem typeTold_angled_iff {inner : String} {parameters : TypeParameters}
    (column : f.columnType = f.dataType.keyword ++ "<" ++ inner ++ ">")
    (settled : Text.trim inner.toList = inner.toList) (given : f.typeParameters = some parameters) :
    f.TypeTold ↔ TypeParameters.ofText? f.dataType.keyword inner = some parameters :=
  typeTold_bracketed_iff (by decide : TypeText.isOpening '<' = true)
    (by simp [column, TypeText.closing]) settled given

theorem typeTold_numbered {shape : UInt32 → TypeParameters} {n : UInt32}
    (listed : (f.dataType.keyword, shape) ∈ TypeParameters.numbered)
    (column : f.columnType = f.dataType.keyword ++ "(" ++ toString n.toNat ++ ")")
    (given : f.typeParameters = some (shape n)) : f.TypeTold :=
  (typeTold_round_iff column (TypeParameters.trim_toString _) given).mpr
    (TypeParameters.ofText?_numbered listed n)

theorem typeTold_of_absent (column : f.columnType = f.dataType.keyword)
    (absent : f.typeParameters = none) : f.TypeTold := by
  rw [TypeTold, column, Document.ofText_keyword, absent]
  exact ⟨rfl, rfl⟩

theorem trim_between_types {key value : String} (first : SettledType key) (second : SettledType value) :
    Text.trim (key ++ ", " ++ value).toList = (key ++ ", " ++ value).toList := by
  have text : (key ++ ", " ++ value).toList = key.toList ++ [',', ' '] ++ value.toList := by
    simp only [String.toList_append]
    rfl
  rw [text]
  exact TypeParameters.trim_between (Text.trim_eq_self_iff.mp first.trim).1 first.ne_nil
    (Text.trim_eq_self_iff.mp second.trim).2 second.ne_nil _

/-- An interval is told from its text unless the qualifier ends in the brackets that it opens first. -/
theorem typeTold_interval_iff {qualifier : String} (interval : f.dataType = .interval)
    (given : f.typeParameters = some (.qualifier qualifier)) (settled : SettledType qualifier) :
    f.TypeTold ↔ TypeText.endsBracketed qualifier.toList = false := by
  have column : f.columnType = "INTERVAL " ++ qualifier := by
    simp only [columnType, interval, given, settled.nestedType]
  have keyword : f.dataType.keyword = "INTERVAL" := by rw [interval]; rfl
  have text : f.columnType.toList = "INTERVAL ".toList ++ qualifier.toList := by
    rw [column, String.toList_append]
  cases ends : TypeText.endsBracketed qualifier.toList with
  | false =>
    refine iff_of_true ?_ rfl
    have ofText := TypeText.ofText_interval settled.trim settled.upper_toList settled.ne_nil ends text
    rw [String.ofList_toList, ← keyword] at ofText
    rw [typeTold_iff_of_ofText ofText given, keyword, TypeParameters.ofText?_qualifier settled]
  | true =>
    refine iff_of_false (fun told => ?_) (by simp)
    obtain ⟨front, opening, inner, split, plain, opens⟩ := TypeText.exists_of_endsBracketed ends
    have read := told.2
    rw [TypeText.parameters_ofText_interval settled.trim plain opens split text, given, keyword] at read
    have same := TypeParameters.upper_of_ofText?_qualifier (Option.some.inj read)
    rw [String.toList_ofList, Text.trim_trim] at same
    -- What stands inside of the brackets is shorter than the qualifier.
    have inside := Text.length_upper_trim_le inner
    have outer := congrArg List.length same
    have upper := settled.upper_toList
    rw [split, ← List.singleton_append, Text.upper_append, Text.upper_append, Text.upper_append,
      TypeText.upper_closing] at upper
    have whole := congrArg List.length upper
    simp only [List.length_append, List.length_singleton] at whole
    rw [split] at outer
    simp only [List.length_append, List.length_cons] at outer
    omega

theorem typeTold_iff (settled : f.TypeSettled) : f.TypeTold ↔ f.TypeLegible := by
  have types := settled.types
  fun_cases columnType f with
  | case1 precision scale given type =>
    have column : f.columnType = f.dataType.keyword ++ "(" ++
        (toString precision.toNat ++ "," ++ toString scale.toNat) ++ ")" := by
      simp only [columnType, given, type, String.append_assoc]
    refine iff_of_true ?_ (by simp [TypeLegible, given])
    rw [typeTold_round_iff column (TypeParameters.trim_decimal precision scale) given, type]
    exact TypeParameters.ofText?_decimal precision scale
  | case2 n given type | case3 n given type | case8 n given type | case9 n given type =>
    exact iff_of_true (typeTold_numbered (by simp [type, TypeParameters.numbered, DataType.keyword])
      (by simp only [columnType, given, type]) given) (by simp [TypeLegible, given])
  | case4 element given type =>
    have settled := types _ given element (List.mem_singleton_self element)
    have column : f.columnType = f.dataType.keyword ++ "<" ++ element ++ ">" := by
      simp only [columnType, given, type, settled.nestedType]
      rfl
    refine iff_of_true ?_ (by simp [TypeLegible, given])
    rw [typeTold_angled_iff column settled.trim given, type]
    exact TypeParameters.ofText?_element settled
  | case5 key value given type =>
    have first := types _ given key List.mem_cons_self
    have second := types _ given value (List.mem_cons_of_mem _ List.mem_cons_self)
    have column : f.columnType = f.dataType.keyword ++ "<" ++ (key ++ ", " ++ value) ++ ">" := by
      simp only [columnType, given, type, first.nestedType, second.nestedType, String.append_assoc]
      rfl
    refine iff_of_true ?_ (by simp [TypeLegible, given])
    rw [typeTold_angled_iff column (trim_between_types first second) given, type]
    exact TypeParameters.ofText?_keyValue first second
  | case6 members given type =>
    have types := List.forall_mem_map.mp (types _ given)
    have nonempty : members ≠ [] := by
      rintro rfl
      have accepted := settled.accepted
      simp [parameterProblem?, given, type] at accepted
    have column : f.columnType = f.dataType.keyword ++ "<" ++
        ", ".intercalate (members.map StructMember.text) ++ ">" := by
      simp only [columnType, given, type]
      rfl
    have keyword : f.dataType.keyword = "STRUCT" := by rw [type]; rfl
    rw [typeTold_angled_iff column (StructMember.trim_members nonempty types) given, keyword,
      TypeParameters.ofText?_struct_iff nonempty types fun m member =>
        clear_of_fieldProblem? (settled.names members given m member), TypeLegible, given]
  | case7 text given type =>
    exact (typeTold_interval_iff type given (types _ given text (List.mem_singleton_self text))).trans
      (by rw [TypeLegible, given])
  | case10 =>
    have absent : f.typeParameters = none := by
      have accepted := settled.accepted
      have structured := settled.structured
      unfold parameterProblem? at accepted
      split at accepted <;> simp_all
    refine iff_of_true (typeTold_of_absent ?_ absent) (by simp [TypeLegible, absent])
    simp [columnType, absent]

end Field

/-! ### Document fields -/

namespace Document

open Json (Members)

variable {f : Field} {members : Members} {result : Members × List Warning}

/-- What has become of a document field says the type and the parameters of a field, and nothing was
dropped on the way. -/
structure ReadsBack (f : Field) (result : Members × List Warning) : Prop where
  keyword : result.1.get? "data_type" = some (.string f.dataType.keyword)
  parameters : result.1.get? "type_parameters" = f.typeParameters.map TypeParameters.toJson
  silent : ∀ table name text keyword, .parametersDropped table name text keyword ∉ result.2

section Texted

variable (type : members.get? "data_type" = some (.string f.columnType))
  (bare : members.get? "type_parameters" = none)

include type

theorem keyword_of_columnType : keyword members = (TypeText.ofText f.columnType).keyword := by
  rw [keyword, typeText?, type]
  rfl

include bare

theorem countedText?_of_columnType :
    countedText? members = (TypeText.ofText f.columnType).parameters := by
  rw [countedText?, parameterText?, bare, innerText?, typeText?, type]
  rfl

theorem typeTold_of_readsBack {index : List TableNames} {table : String} (settled : f.TypeSettled)
    (back : ReadsBack f (field index table members)) : f.TypeTold := by
  have counted := countedText?_of_columnType type bare
  have word : (TypeText.ofText f.columnType).keyword = f.dataType.keyword :=
    Json.string.inj (Option.some.inj ((get?_field_dataType type).symm.trans back.keyword))
  cases given : f.typeParameters with
  | none => exact (Field.typeTold_iff settled).mpr (by simp [Field.TypeLegible, given])
  | some parameters =>
    have written := back.parameters
    cases inner : (TypeText.ofText f.columnType).parameters with
    | none =>
      rw [field_untexted (counted.trans inner), bare, given] at written
      contradiction
    | some text =>
      rw [(field_parameters (counted.trans inner)).1, keyword_of_columnType type, word, given] at written
      obtain ⟨found, read, same⟩ := Option.map_eq_some_iff.mp written
      have faithful : parameters.Faithful := by
        cases parameters with
        | other listed => exact absurd given (settled.structured listed)
        | _ => trivial
      obtain rfl := TypeParameters.eq_of_toJson (TypeParameters.faithful_of_ofText? read) faithful same
      exact ⟨word, by rw [inner, given, Option.map_some, read]; rfl⟩

theorem readsBack_of_typeTold (told : f.TypeTold) (index : List TableNames) (table : String) :
    ReadsBack f (field index table members) := by
  have counted := countedText?_of_columnType type bare
  obtain ⟨word, read⟩ := told
  have keyword : keyword members = f.dataType.keyword := (keyword_of_columnType type).trans word
  have silent (fits : ∀ text, countedText? members = some text →
      TypeParameters.ofText? (Document.keyword members) text ≠ none) :
      ∀ place name text keyword,
        .parametersDropped place name text keyword ∉ (field index table members).2 := by
    intro place name text keyword dropped
    obtain ⟨⟨given, misfit, _⟩, _⟩ := misfit_of_parametersDropped dropped
    exact fits text given misfit
  cases inner : (TypeText.ofText f.columnType).parameters with
  | none =>
    rw [inner] at read
    have absent : f.typeParameters = none := Option.map_eq_none_iff.mp read.symm
    refine ⟨word ▸ get?_field_dataType type, ?_, silent fun text given => ?_⟩
    · rw [field_untexted (counted.trans inner), bare, absent, Option.map_none]
    · rw [counted, inner] at given
      contradiction
  | some text =>
    rw [inner] at read
    obtain ⟨parameters, given, fits⟩ := Option.map_eq_some_iff.mp read.symm
    refine ⟨word ▸ get?_field_dataType type, ?_, silent fun text' counts => ?_⟩
    · rw [(field_parameters (counted.trans inner)).1, keyword, given, ← fits]
    · obtain rfl := Option.some.inj ((counted.trans inner).symm.trans counts)
      rw [keyword, ← fits]
      exact Option.some_ne_none _

end Texted

/-- A document field that has the text of a column type, and no parameters beside it, is given the
type and the parameters of the column exactly if they can be told from the text. -/
theorem field_readsBack_iff (settled : f.TypeSettled)
    (type : members.get? "data_type" = some (.string f.columnType))
    (bare : members.get? "type_parameters" = none) (index : List TableNames) (table : String) :
    ReadsBack f (field index table members) ↔ f.TypeLegible := by
  rw [← Field.typeTold_iff settled]
  exact ⟨typeTold_of_readsBack type bare settled,
    fun told => readsBack_of_typeTold type bare told index table⟩

/-- A document field that has the text of a column type. -/
def texted (f : Field) : Members :=
  [("data_type", .string f.columnType), ("name", .string f.name)]

/-- A column of amounts with notes. -/
def amounts : Field :=
  { Field.plain "F" "amounts" .struct with
    typeParameters := some (.struct [⟨"total", "DECIMAL(10,2)"⟩, ⟨"notes", "MAP<STRING, INT>"⟩]) }

theorem amounts_readsBack : amounts.columnType =
      "STRUCT<total: DECIMAL(10,2), notes: MAP<STRING, INT>>" ∧ amounts.TypeSettled ∧
    ReadsBack amounts (field [] "orders" (texted amounts)) := by
  have settled : amounts.TypeSettled := by
    refine ⟨by decide, nofun, fun parameters given text member => ?_, fun members given => ?_⟩
    · obtain rfl := Option.some.inj given
      simp only [TypeParameters.typeTexts, List.map_cons, List.map_nil, List.mem_cons,
        List.not_mem_nil, or_false] at member
      rcases member with rfl | rfl <;> exact ⟨by decide, by decide, by decide, by decide⟩
    · cases given
      decide
  exact ⟨by decide, settled,
    (field_readsBack_iff settled (by decide) (by decide) [] "orders").mpr (by decide)⟩

/-- A column whose struct has a member with a name that is quoted in SQL. -/
def ranked : Field :=
  { Field.plain "F" "ranked" .struct with typeParameters := some (.struct [⟨"order", "INT"⟩]) }

/-- A column of an interval with a precision at the end of its qualifier. -/
def age : Field :=
  { Field.plain "F" "age" .interval with typeParameters := some (.qualifier "DAY(3)") }

/-- The backticks become part of the name of the member. -/
theorem parameters_ranked : (field [] "orders" (texted ranked)).1.get? "type_parameters" =
    some (TypeParameters.struct [⟨"\x60order\x60", "INT"⟩]).toJson := by
  have column : ranked.columnType = "STRUCT<\x60order\x60: INT>" := by decide
  have counted : countedText? (texted ranked) = some "\x60order\x60: INT" := by
    rw [texted, column]
    decide
  have struct : keyword (texted ranked) = "STRUCT" := by
    rw [texted, column]
    decide
  have read : TypeParameters.ofText? "STRUCT" "\x60order\x60: INT" =
      some (.struct [⟨"\x60order\x60", "INT"⟩]) := by decide
  rw [(field_parameters counted).1, struct, read, Option.map_some]

/-- Neither the struct nor the interval is read back; of the interval, the qualifier is taken for part
of the keyword, and its precision for parameters that do not fit. -/
theorem ranked_age_not_readsBack :
    (ranked.TypeSettled ∧ ¬ ReadsBack ranked (field [] "orders" (texted ranked))) ∧
      age.TypeSettled ∧ ¬ ReadsBack age (field [] "orders" (texted age)) ∧
      (field [] "orders" (texted age)).1.get? "data_type" = some (.string "INTERVAL DAY") ∧
      (field [] "orders" (texted age)).2 = [.parametersDropped "orders" "age" "3" "INTERVAL DAY"] := by
  refine ⟨⟨⟨by decide, nofun, fun parameters given text member => ?_, fun members given => ?_⟩,
    fun back => ?_⟩, ⟨by decide, nofun, fun parameters given text member => ?_, nofun⟩,
    fun back => absurd back.keyword (by decide), by decide, by decide⟩
  · obtain rfl := Option.some.inj given
    obtain rfl := List.mem_singleton.mp member
    exact ⟨by decide, by decide, by decide, by decide⟩
  · cases given
    decide
  · exact absurd (parameters_ranked.symm.trans back.parameters) (by decide)
  · obtain rfl := Option.some.inj given
    obtain rfl := List.mem_singleton.mp member
    exact ⟨by decide, by decide, by decide, by decide⟩

end Document
end LakeSchema
