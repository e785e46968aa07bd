import LakeSchema.Proofs.Text.Spaces
import LakeSchema.Schema.Name
import Mathlib.Data.List.Infix
import Mathlib.Data.String.Basic

/-!
# Storage keys

The key of a name is of a fixed form (`isKey_ofName`), and the texts of this form are those that are their
own key (`ofName_eq_self_iff`). A key takes no more characters once it has 255 bytes. The character that
fills it is kept as a whole, so that a key can be up to three bytes longer (`ofName_fits_iff`).
-/

namespace LakeSchema

namespace Text

variable {a b : List Char}

theorem byteSize_eq_utf8Len (cs : List Char) : byteSize cs = String.utf8Len cs := by
  induction cs with
  | nil => rfl
  | cons c cs ih => rw [byteSize, String.utf8Len, ih, Nat.add_comm]

theorem utf8ByteSize_ofList (cs : List Char) : (String.ofList cs).utf8ByteSize = byteSize cs := by
  rw [String.utf8ByteSize_ofList, byteSize_eq_utf8Len]

theorem byteSize_append (a b : List Char) : byteSize (a ++ b) = byteSize a + byteSize b := by
  rw [byteSize_eq_utf8Len, String.utf8Len_append, ← byteSize_eq_utf8Len, ← byteSize_eq_utf8Len]

theorem byteSize_reverse (cs : List Char) : byteSize cs.reverse = byteSize cs := by
  rw [byteSize_eq_utf8Len, String.utf8Len_reverse, ← byteSize_eq_utf8Len]

theorem byteSize_le_of_sublist (within : a.Sublist b) : byteSize a ≤ byteSize b := by
  rw [byteSize_eq_utf8Len, byteSize_eq_utf8Len]
  exact String.utf8Len_le_of_sublist within

theorem byteSize_replicate (n : Nat) (c : Char) : byteSize (List.replicate n c) = n * c.utf8Size := by
  induction n with
  | zero => exact (Nat.zero_mul _).symm
  | succ n ih => rw [List.replicate_succ, byteSize, ih, Nat.succ_mul, Nat.add_comm]

theorem byteSize_singleton (c : Char) : byteSize [c] = c.utf8Size :=
  Nat.add_zero _

end Text

namespace StorageKey

open Text (byteSize)

variable {key cs front whole : List Char} {c : Char} {name : String}

/-! ### The form of keys -/

/-- A character that keys are made of. -/
def isPart (c : Char) : Bool :=
  Text.isAlphanumeric c || c == '-' || c == '_' || c == '.'

/-- The texts that are keys. What is in front of the last character is below the limit. -/
structure IsKey (key : String) : Prop where
  nonempty : key ≠ ""
  parts : ∀ c ∈ key.toList, isPart c = true
  dots : ¬['.', '.'] <:+: key.toList
  first : ∀ c ∈ key.toList.head?, c ≠ '.' ∧ c ≠ '_'
  last : ∀ c ∈ key.toList.getLast?, c ≠ '.' ∧ c ≠ '_'
  unfilled : ∀ front c, key.toList = front ++ [c] → byteSize front < Name.maxLength

/-- What holds of a key while it grows, in either direction. -/
structure Grown (key : List Char) : Prop where
  parts : ∀ c ∈ key, isPart c = true
  dots : ¬['.', '.'] <:+: key

theorem Grown.within {part : List Char} (grown : Grown key) (inside : part <:+: key) : Grown part :=
  ⟨fun c member => grown.parts c (inside.subset member), fun twice => grown.dots (twice.trans inside)⟩

theorem Grown.reverse (grown : Grown key) : Grown key.reverse :=
  ⟨fun c member => grown.parts c (List.mem_reverse.mp member),
    fun twice => grown.dots (List.reverse_infix.mp twice)⟩

theorem isEdge_eq_false_iff : isEdge c = false ↔ c ≠ '.' ∧ c ≠ '_' := by
  simp [isEdge]

/-! ### Pushing characters -/

/-- The growth of a key that remembers a dot exactly if the key ends in one. -/
def Growth.of (key : List Char) : Growth :=
  ⟨key, key.head? == some '.'⟩

/-- A key with one more character. -/
def push (key : List Char) (c : Char) : List Char :=
  ((Growth.of key).push c).key

theorem push_eq (key : List Char) (c : Char) : push key c =
    if Text.isAlphanumeric c || c == '-' || c == '_' then c :: key
    else if c == '.' then if key.head? == some '.' then key else c :: key
    else if key.head? == some '_' then key else '_' :: key := by
  unfold push Growth.push Growth.of
  repeat' split
  all_goals rfl

/-- No other character leaves a dot behind, so that a growth remembers what its key shows. -/
theorem of_push (key : List Char) (c : Char) : (Growth.of key).push c = Growth.of (push key c) := by
  have plain (kept : (Text.isAlphanumeric c || c == '-' || c == '_') = true) : (c == '.') = false := by
    refine beq_false_of_ne ?_
    rintro rfl
    exact absurd kept (by decide)
  unfold push Growth.push
  split
  case isTrue kept => simp [Growth.of, plain kept]
  split
  case isTrue dot =>
    split
    · rfl
    · simp [Growth.of, beq_iff_eq.mp dot]
  split
  case isTrue line =>
    have line : key.head? = some '_' := beq_iff_eq.mp line
    simp [Growth.of, line]
  · simp [Growth.of]

theorem foldl_push (key cs : List Char) :
    cs.foldl Growth.push (.of key) = .of (cs.foldl push key) := by
  induction cs generalizing key with
  | nil => rfl
  | cons c cs ih => rw [List.foldl_cons, List.foldl_cons, of_push, ih]

theorem push_of_isPart (part : isPart c = true) (single : c = '.' → key.head? ≠ some '.') :
    push key c = c :: key := by
  have plain : Text.isAlphanumeric '.' = false := by decide
  rw [push_eq]
  by_cases dot : c = '.'
  · subst dot
    simp [plain, single rfl]
  · have kept : (Text.isAlphanumeric c || c == '-' || c == '_') = true := by
      simpa [isPart, dot] using part
    rw [if_pos kept]

/-- A character leaves a key as it is or adds one, and a dot only behind another character. -/
theorem push_cases (key : List Char) (c : Char) : push key c = key ∨
    ∃ d, push key c = d :: key ∧ isPart d = true ∧ (d = '.' → key.head? ≠ some '.') := by
  by_cases part : isPart c = true
  · by_cases single : c = '.' → key.head? ≠ some '.'
    · exact .inr ⟨c, push_of_isPart part single, part, single⟩
    · obtain ⟨rfl, twice⟩ := Classical.not_imp.mp single
      have plain : Text.isAlphanumeric '.' = false := by decide
      exact .inl (by simp [push_eq, plain, not_not.mp twice])
  · simp only [isPart, Bool.or_eq_true, not_or, Bool.not_eq_true] at part
    obtain ⟨⟨⟨letter, dash⟩, line⟩, dot⟩ := part
    simp only [push_eq, letter, dash, line, dot, Bool.or_false, Bool.false_eq_true, if_false]
    split
    · exact .inl rfl
    · exact .inr ⟨'_', rfl, by decide, fun dot => absurd dot (by decide)⟩

theorem Grown.push (grown : Grown key) (c : Char) : Grown (push key c) := by
  rcases push_cases key c with same | ⟨d, more, part, single⟩
  · rwa [same]
  · rw [more]
    refine ⟨List.forall_mem_cons.mpr ⟨part, grown.parts⟩, fun twice => ?_⟩
    rcases List.infix_cons_iff.mp twice with front | inner
    · obtain ⟨same, next⟩ := List.cons_prefix_cons.mp front
      obtain ⟨tail, begins⟩ := next
      exact single same.symm (by rw [← begins]; rfl)
    · exact grown.dots inner

theorem grown_foldl_push (cs : List Char) (grown : Grown key) : Grown (cs.foldl StorageKey.push key) := by
  induction cs generalizing key with
  | nil => exact grown
  | cons c cs ih => exact ih (grown.push c)

theorem isSuffix_foldl_push (key cs : List Char) : key <:+ cs.foldl push key := by
  induction cs generalizing key with
  | nil => exact List.suffix_rfl
  | cons c cs ih =>
    refine List.IsSuffix.trans ?_ (ih (push key c))
    rcases push_cases key c with same | ⟨d, more, _⟩
    · rw [same]
    · exact more ▸ List.suffix_cons d key

theorem foldl_push_of_grown (grown : Grown (cs.reverse ++ key)) : cs.foldl push key = cs.reverse ++ key := by
  induction cs generalizing key with
  | nil => rfl
  | cons c cs ih =>
    rw [List.reverse_cons, List.append_assoc, List.singleton_append] at grown ⊢
    have added : push key c = c :: key := by
      refine push_of_isPart (grown.parts c (by simp)) ?_
      rintro rfl twice
      obtain ⟨tail, rfl⟩ := List.head?_eq_some_iff.mp twice
      exact grown.dots ⟨cs.reverse, tail, by simp⟩
    rw [List.foldl_cons, added, ih grown]

/-! ### The limit -/

/-- The part of a key, last character first, at which its growth ends. -/
structure Filled (key whole : List Char) : Prop where
  suffix : key <:+ whole
  unfilled : byteSize key.tail < Name.maxLength
  ends : key = whole ∨ Name.maxLength ≤ byteSize key

theorem filled_fill (cs : List Char) (short : byteSize key < Name.maxLength) :
    Filled ((Growth.of key).fill cs).key (cs.foldl push key) := by
  induction cs generalizing key with
  | nil =>
    exact ⟨List.suffix_rfl, Nat.lt_of_le_of_lt (Text.byteSize_le_of_sublist (List.tail_sublist key)) short,
      .inl rfl⟩
  | cons c cs ih =>
    rw [Growth.fill, List.foldl_cons, of_push]
    split
    · rename_i full
      have full : byteSize (push key c) ≥ Name.maxLength := full
      refine ⟨isSuffix_foldl_push _ cs, ?_, .inr full⟩
      rcases push_cases key c with same | ⟨d, more, _⟩
      · rw [same] at full
        omega
      · rw [more]
        exact short
    · rename_i room
      exact ih (Nat.lt_of_not_ge room)

/-- What a name becomes without a limit. -/
def unlimited (name : String) : List Char :=
  (name.toList.foldl Growth.push .start).key.reverse

theorem unlimited_eq (name : String) : unlimited name = (name.toList.foldl push []).reverse :=
  congrArg (fun growth => growth.key.reverse) (foldl_push [] name.toList)

theorem grown_unlimited (name : String) : Grown (unlimited name) := by
  rw [unlimited_eq]
  exact (grown_foldl_push name.toList ⟨List.forall_mem_nil _, by decide⟩).reverse

/-- The characters of a name up to the one that fills its key, last character first. -/
def filled (name : String) : List Char :=
  (Growth.start.fill name.toList).key

theorem filled_unlimited (name : String) : Filled (filled name) (unlimited name).reverse := by
  rw [unlimited_eq, List.reverse_reverse]
  exact filled_fill name.toList (by decide)

theorem Filled.isSuffix (filled : Filled key whole) (within : c :: front <:+ whole)
    (short : byteSize front < Name.maxLength) : c :: front <:+ key := by
  rcases List.suffix_or_suffix_of_suffix within filled.suffix with inside | outside
  · exact inside
  · rcases filled.ends with rfl | full
    · exact within
    · rcases List.suffix_cons_iff.mp outside with same | inside
      · rw [same]
      · have := Text.byteSize_le_of_sublist inside.sublist
        omega

/-! ### Without marks at the ends -/

/-- A key that is given last character first, without the marks at its ends. -/
def stripped (key : List Char) : List Char :=
  (key.dropWhile isEdge).reverse.dropWhile isEdge

theorem ofName_eq (name : String) : ofName name =
    if (stripped (filled name)).isEmpty then "project" else String.ofList (stripped (filled name)) :=
  rfl

theorem stripped_isInfix (key : List Char) : stripped key <:+: key.reverse :=
  (List.dropWhile_suffix isEdge).isInfix.trans
    (List.reverse_infix.mpr (List.dropWhile_suffix isEdge).isInfix)

theorem head?_stripped : ∀ c ∈ (stripped key).head?, isEdge c = false :=
  Text.stops_dropWhile isEdge _

theorem getLast?_stripped : ∀ c ∈ (stripped key).getLast?, isEdge c = false := by
  intro c last
  have inner := Text.getLast?_dropWhile last
  rw [List.getLast?_reverse] at inner
  exact Text.stops_dropWhile isEdge key c inner

theorem stripped_of_bare (last : ∀ c ∈ key.head?, isEdge c = false) :
    stripped key = key.reverse.dropWhile isEdge := by
  have whole := Text.dropWhile_append_rest (List.forall_mem_nil _) last
  rw [List.nil_append] at whole
  rw [stripped, whole]

theorem Filled.unfilled_stripped (filled : Filled key whole) (split : stripped key = front ++ [c]) :
    byteSize front < Name.maxLength := by
  have within : (c :: front.reverse).Sublist key := by
    have inner := List.reverse_infix.mpr (stripped_isInfix key)
    rw [split, List.reverse_append, List.reverse_reverse] at inner
    exact inner.sublist
  have behind : front.reverse.Sublist key.tail := within.tail
  have le := Text.byteSize_le_of_sublist behind
  rw [Text.byteSize_reverse] at le
  exact Nat.lt_of_le_of_lt le filled.unfilled

theorem isKey_project : IsKey "project" where
  nonempty := by decide
  parts := List.all_eq_true.mp (by decide)
  dots := by decide
  first c first := by
    obtain rfl := Option.some.inj first
    decide
  last c last := by
    obtain rfl := Option.some.inj last
    decide
  unfilled front c split := by
    have within : front.Sublist "project".toList := split ▸ List.sublist_append_left front [c]
    exact Nat.lt_of_le_of_lt (Text.byteSize_le_of_sublist within) (by decide)

theorem isKey_ofName (name : String) : IsKey (ofName name) := by
  have whole : (filled name).reverse <:+: unlimited name := by
    rw [← List.reverse_infix, List.reverse_reverse]
    exact (filled_unlimited name).suffix.isInfix
  have grown := (grown_unlimited name).within ((stripped_isInfix (filled name)).trans whole)
  rw [ofName_eq]
  split
  · exact isKey_project
  · rename_i solid
    rw [List.isEmpty_iff] at solid
    constructor
    · rwa [ne_eq, String.ofList_eq_empty_iff]
    all_goals rw [String.toList_ofList]
    · exact grown.parts
    · exact grown.dots
    · exact fun c first => isEdge_eq_false_iff.mp (head?_stripped c first)
    · exact fun c last => isEdge_eq_false_iff.mp (getLast?_stripped c last)
    · exact fun front c split => (filled_unlimited name).unfilled_stripped split

theorem IsKey.filled_eq {key : String} (isKey : IsKey key) : filled key = key.toList.reverse := by
  have whole : (unlimited key).reverse = key.toList.reverse := by
    have grown : Grown (key.toList.reverse ++ []) := by
      rw [List.append_nil]
      exact Grown.reverse ⟨isKey.parts, isKey.dots⟩
    rw [unlimited_eq, List.reverse_reverse, foldl_push_of_grown grown, List.append_nil]
  have cut := filled_unlimited key
  rw [whole] at cut
  rcases List.eq_nil_or_concat key.toList with empty | ⟨front, c, split⟩
  · exact absurd (String.toList_eq_nil_iff.mp empty) isKey.nonempty
  · have split : key.toList = front ++ [c] := by simpa using split
    have short : byteSize front.reverse < Name.maxLength := by
      rw [Text.byteSize_reverse]
      exact isKey.unfilled front c split
    rw [split, List.reverse_append, List.reverse_singleton, List.singleton_append] at cut ⊢
    exact cut.suffix.eq_of_length_le (cut.isSuffix List.suffix_rfl short).length_le

theorem IsKey.ofName_eq_self {key : String} (isKey : IsKey key) : ofName key = key := by
  have last : ∀ c ∈ key.toList.reverse.head?, isEdge c = false := by
    rw [List.head?_reverse]
    exact fun c last => isEdge_eq_false_iff.mpr (isKey.last c last)
  have first : key.toList.dropWhile isEdge = key.toList := by
    have kept := Text.dropWhile_append_rest (List.forall_mem_nil _) fun c first =>
      isEdge_eq_false_iff.mpr (isKey.first c first)
    rwa [List.nil_append] at kept
  have solid : key.toList.isEmpty = false := by
    rw [List.isEmpty_eq_false_iff, ne_eq, String.toList_eq_nil_iff]
    exact isKey.nonempty
  rw [ofName_eq, isKey.filled_eq, stripped_of_bare last, List.reverse_reverse, first, solid,
    String.ofList_toList]
  rfl

/-- The keys are the texts that are their own key. -/
theorem ofName_eq_self_iff {key : String} : ofName key = key ↔ IsKey key :=
  ⟨fun same => same ▸ isKey_ofName key, IsKey.ofName_eq_self⟩

/-! ### Keys that are too long -/

/-- A character begins before the limit of the key and ends behind it, also without the marks that the
key begins with. -/
def Overruns (name : String) : Prop :=
  ∃ front c, front ++ [c] <+: unlimited name ∧ byteSize front < Name.maxLength ∧
    Name.maxLength < byteSize ((front ++ [c]).dropWhile isEdge)

theorem utf8Size_of_isEdge (edge : isEdge c = true) : c.utf8Size = 1 := by
  simp only [isEdge, Bool.or_eq_true, beq_iff_eq] at edge
  rcases edge with rfl | rfl <;> rfl

theorem byteSize_dropWhile_le (cs : List Char) : byteSize (cs.dropWhile isEdge) ≤ byteSize cs :=
  Text.byteSize_le_of_sublist (List.dropWhile_suffix isEdge).sublist

/-- The character that overruns a key takes more than one byte. -/
theorem isEdge_of_overrun (short : byteSize front < Name.maxLength)
    (excess : Name.maxLength < byteSize ((front ++ [c]).dropWhile isEdge)) : isEdge c = false := by
  refine Bool.eq_false_iff.mpr fun edge => ?_
  have le := byteSize_dropWhile_le (front ++ [c])
  rw [Text.byteSize_append, Text.byteSize_singleton, utf8Size_of_isEdge edge] at le
  omega

theorem Filled.eq_of_excess (filled : Filled key whole) (within : c :: front <:+ whole)
    (short : byteSize front < Name.maxLength) (excess : Name.maxLength < byteSize (c :: front)) :
    key = c :: front := by
  obtain ⟨more, split⟩ := filled.isSuffix within short
  cases more with
  | nil => exact split.symm
  | cons d more =>
    -- Something behind it would leave all of it below the limit.
    have unfilled := filled.unfilled
    rw [← split, List.cons_append, List.tail_cons, Text.byteSize_append] at unfilled
    omega

theorem ofName_of_filled (last : filled name = c :: front.reverse) (solid : isEdge c = false) :
    ofName name = String.ofList ((front ++ [c]).dropWhile isEdge) := by
  have bare : stripped (filled name) = (front ++ [c]).dropWhile isEdge := by
    rw [last, stripped_of_bare (by simpa using solid), List.reverse_cons, List.reverse_reverse]
  have member : c ∈ stripped (filled name) :=
    bare ▸ Text.mem_dropWhile (List.mem_append_right front List.mem_cons_self) solid
  rw [ofName_eq, if_neg (by rw [List.isEmpty_iff]; exact List.ne_nil_of_mem member), bare]

theorem excess_of_overruns (overruns : Overruns name) :
    Name.maxLength < (ofName name).utf8ByteSize := by
  obtain ⟨front, c, within, short, excess⟩ := overruns
  have solid := isEdge_of_overrun short excess
  have last : filled name = c :: front.reverse := by
    refine (filled_unlimited name).eq_of_excess ?_ (by rwa [Text.byteSize_reverse]) ?_
    · rw [← List.reverse_prefix, List.reverse_reverse, List.reverse_cons, List.reverse_reverse]
      exact within
    · rw [← Text.byteSize_reverse, List.reverse_cons, List.reverse_reverse]
      exact Nat.lt_of_lt_of_le excess (byteSize_dropWhile_le _)
  rw [ofName_of_filled last solid, Text.utf8ByteSize_ofList]
  exact excess

theorem overruns_of_excess (excess : Name.maxLength < (ofName name).utf8ByteSize) : Overruns name := by
  have cut := filled_unlimited name
  rw [ofName_eq] at excess
  split at excess
  · exact absurd excess (by decide)
  · rw [Text.utf8ByteSize_ofList, stripped] at excess
    have le := byteSize_dropWhile_le ((filled name).dropWhile isEdge).reverse
    rw [Text.byteSize_reverse] at le
    cases last : filled name with
    | nil =>
      rw [last] at excess
      exact absurd excess (by decide)
    | cons c behind =>
      rw [last] at cut excess le
      have short : byteSize behind < Name.maxLength := cut.unfilled
      have solid : isEdge c = false := by
        refine Bool.eq_false_iff.mpr fun edge => ?_
        rw [List.dropWhile_cons_of_pos edge] at excess le
        have := byteSize_dropWhile_le behind
        omega
      have whole := List.reverse_prefix.mpr cut.suffix
      rw [List.reverse_reverse, List.reverse_cons] at whole
      rw [List.dropWhile_cons_of_neg (by simp [solid]), List.reverse_cons] at excess
      exact ⟨behind.reverse, c, whole, by rwa [Text.byteSize_reverse], excess⟩

/-- A key stays within the limit unless a character overruns it. -/
theorem ofName_fits_iff : (ofName name).utf8ByteSize ≤ Name.maxLength ↔ ¬Overruns name := by
  rw [← Nat.not_lt, not_iff_not]
  exact ⟨overruns_of_excess, excess_of_overruns⟩

theorem IsKey.utf8ByteSize_le {key : String} (isKey : IsKey key) :
    key.utf8ByteSize ≤ Name.maxLength + 3 := by
  rw [← String.ofList_toList (s := key), Text.utf8ByteSize_ofList]
  rcases List.eq_nil_or_concat key.toList with empty | ⟨front, c, split⟩
  · rw [empty]
    exact Nat.zero_le _
  · rw [List.concat_eq_append] at split
    have short := isKey.unfilled front c split
    have most := Char.utf8Size_le_four c
    rw [split, Text.byteSize_append, Text.byteSize_singleton]
    omega

/-- The key of a name is of the form of a key, is its own key, and takes three bytes more than the limit
at most. It stays within the limit exactly if no character overruns it. -/
theorem ofName_key_fits_iff (name : String) :
    IsKey (ofName name) ∧ ofName (ofName name) = ofName name ∧
      (ofName name).utf8ByteSize ≤ Name.maxLength + 3 ∧
      ((ofName name).utf8ByteSize ≤ Name.maxLength ↔ ¬Overruns name) :=
  have isKey := isKey_ofName name
  ⟨isKey, isKey.ofName_eq_self, isKey.utf8ByteSize_le, ofName_fits_iff⟩

/-- A name with room for one more byte in front of a last character of two. -/
def longName : String :=
  String.ofList (List.replicate 254 'a' ++ ['é'])

theorem isKey_longName : IsKey longName := by
  have letters : longName.toList = List.replicate 254 'a' ++ ['é'] := String.toList_ofList
  have member : ∀ c ∈ longName.toList, c = 'a' ∨ c = 'é' := by
    intro c member
    rw [letters] at member
    exact (List.mem_append.mp member).imp List.eq_of_mem_replicate List.mem_singleton.mp
  have bare : ∀ c ∈ longName.toList, c ≠ '.' ∧ c ≠ '_' := by
    intro c inside
    rcases member c inside with rfl | rfl <;> decide
  constructor
  · intro empty
    have none := String.toList_eq_nil_iff.mpr empty
    rw [letters] at none
    exact List.cons_ne_nil _ _ (List.append_eq_nil_iff.mp none).2
  · intro c inside
    rcases member c inside with rfl | rfl <;> decide +kernel
  · exact fun twice => (bare '.' (twice.subset List.mem_cons_self)).1 rfl
  · exact fun c first => bare c (List.mem_of_head? first)
  · exact fun c last => bare c (List.mem_of_getLast? last)
  · intro front c split
    have same : front = List.replicate 254 'a' := by
      have shorter : longName.toList.dropLast = front := by rw [split, List.dropLast_concat]
      rw [← shorter, letters, List.dropLast_concat]
    rw [same, Text.byteSize_replicate]
    decide

/-- The last character overruns the key. -/
theorem longName_too_long : ofName longName = longName ∧ longName.utf8ByteSize = 256 ∧
    Name.maxLength = 255 := by
  have bytes : longName.utf8ByteSize = byteSize (List.replicate 254 'a' ++ ['é']) :=
    Text.utf8ByteSize_ofList _
  refine ⟨isKey_longName.ofName_eq_self, ?_, rfl⟩
  rw [bytes, Text.byteSize_append, Text.byteSize_replicate]
  decide

end StorageKey
end LakeSchema
