import LakeSchema.Compile.Ddl
import LakeSchema.Proofs.Text.AsciiCase

/-!
# Words of constraint names

The name of a constraint is made of its parts. It keeps their words, the runs of ASCII letters and
digits in lower case, and nothing else: two lists of parts make the same name exactly if they have the
same words in a row (`ofParts_eq_iff`).
-/

namespace LakeSchema.ConstraintName

/-- The words of a name: its runs of ASCII letters and digits, in lower case. -/
def words (cs : List Char) : List (List Char) :=
  ((cs.splitOnP fun c => !c.isAlphanum).filter (· ≠ [])).map (·.map Char.toLower)

/-- What a word of a name is not: empty, or cut by an underscore. -/
structure IsWord (word : List Char) : Prop where
  nonempty : word ≠ []
  whole : '_' ∉ word

/-- Words with single underscores between them. -/
def joined (ws : List (List Char)) : List Char :=
  ['_'].intercalate ws

/-- What stands in front of a further word, last character first. -/
def front (ws : List (List Char)) : List Char :=
  if ws = [] then [] else '_' :: (joined ws).reverse

variable {c : Char} {a b cs run word rest : List Char} {ws vs : List (List Char)}
  {parts others : List String}

/-! ### Words -/

theorem words_append_cons (other : c.isAlphanum = false) :
    words (a ++ c :: b) = words a ++ words b := by
  simp [words, List.splitOnP_append_cons, other]

theorem words_run (nonempty : run ≠ []) (letters : ∀ c ∈ run, c.isAlphanum = true) :
    words run = [run.map Char.toLower] := by
  rw [words, List.splitOnP_eq_singleton (by simpa using letters)]
  simp [nonempty]

theorem toLower_ne_underscore (letter : c.isAlphanum = true) : c.toLower ≠ '_' := by
  by_cases ascii : c.toNat < 128
  · exact Text.ascii_induct (motive := fun c => c.isAlphanum = true → c.toLower ≠ '_')
      (by decide) ascii letter
  · rw [Text.toLower_of_not_ascii ascii]
    rintro rfl
    exact ascii (by decide)

theorem isWord_run (nonempty : run ≠ []) (letters : ∀ c ∈ run, c.isAlphanum = true) :
    IsWord (run.map Char.toLower) := by
  refine ⟨by simpa using nonempty, fun member => ?_⟩
  obtain ⟨c, inside, same⟩ := List.mem_map.mp member
  exact toLower_ne_underscore (letters c inside) same

theorem letters_concat (letters : ∀ d ∈ run, d.isAlphanum = true) (letter : c.isAlphanum = true) :
    ∀ d ∈ run ++ [c], d.isAlphanum = true := by
  intro d member
  rcases List.mem_append.mp member with before | here
  · exact letters d before
  · exact List.mem_singleton.mp here ▸ letter

theorem isWord_of_mem_run (letters : ∀ c ∈ run, c.isAlphanum = true) (member : word ∈ words run) :
    IsWord word := by
  by_cases nonempty : run = []
  · subst nonempty
    cases member
  · rw [words_run nonempty letters, List.mem_singleton] at member
    exact member ▸ isWord_run nonempty letters

theorem isWord_of_mem_append (letters : ∀ c ∈ run, c.isAlphanum = true)
    (member : word ∈ words (run ++ cs)) : IsWord word := by
  induction cs generalizing run with
  | nil => exact isWord_of_mem_run letters (by rwa [List.append_nil] at member)
  | cons c cs ih =>
    by_cases letter : c.isAlphanum = true
    · exact ih (letters_concat letters letter) (by simpa using member)
    · rw [words_append_cons (Bool.eq_false_iff.mpr letter)] at member
      exact (List.mem_append.mp member).elim (isWord_of_mem_run letters) fun later =>
        ih (List.forall_mem_nil _) later

theorem isWord_of_mem_words (member : word ∈ words cs) : IsWord word :=
  isWord_of_mem_append (List.forall_mem_nil _) member

/-- A word ends in a character of its own. -/
theorem IsWord.reverse_eq_cons (isWord : IsWord word) :
    ∃ last init, word.reverse = last :: init ∧ last ≠ '_' := by
  obtain ⟨last, init, same⟩ := List.exists_cons_of_ne_nil
    (List.reverse_ne_nil_iff.mpr isWord.nonempty)
  refine ⟨last, init, same, ?_⟩
  rintro rfl
  exact isWord.whole (List.mem_reverse.mp (same ▸ List.mem_cons_self))

theorem IsWord.dropWhile_reverse (isWord : IsWord word) :
    (word.reverse ++ rest).dropWhile (· == '_') = word.reverse ++ rest := by
  obtain ⟨last, init, same, other⟩ := isWord.reverse_eq_cons
  rw [same, List.cons_append, List.dropWhile_cons_of_neg (by simpa using other)]

/-! ### Joined words -/

theorem joined_concat : joined (ws ++ [word]) = (front ws).reverse ++ word := by
  induction ws with
  | nil => simp [joined, front]
  | cons v ws ih =>
    cases ws with
    | nil => simp [joined, front]
    | cons w ws =>
      rw [joined, List.cons_append, List.cons_append, List.intercalate_cons_cons, ← List.cons_append,
        ← joined, ih]
      simp [front, joined, List.intercalate_cons_cons]

theorem front_concat : front (ws ++ [word]) = '_' :: (word.reverse ++ front ws) := by
  simp [front, joined_concat]

theorem joined_eq_nil (each : ∀ word ∈ ws, IsWord word) (empty : joined ws = []) : ws = [] := by
  rcases List.eq_nil_or_concat ws with none | ⟨init, last, rfl⟩
  · exact none
  · rw [List.concat_eq_append, joined_concat] at empty
    exact absurd (List.append_eq_nil_iff.mp empty).2 (each last (by simp)).nonempty

/-- Words are read back from what they are joined to. -/
theorem joined_inj (first : ∀ word ∈ ws, IsWord word) (second : ∀ word ∈ vs, IsWord word)
    (same : joined ws = joined vs) : ws = vs := by
  by_cases none : ws = []
  · subst none
    exact (joined_eq_nil second same.symm).symm
  by_cases none' : vs = []
  · subst none'
    exact joined_eq_nil first same
  · rw [← List.splitOn_intercalate '_' (fun word member => (first word member).whole) none,
      ← List.splitOn_intercalate '_' (fun word member => (second word member).whole) none']
    exact congrArg _ same

/-! ### Names -/

theorem push_front (other : ¬c.isAlphanum = true) : push (front ws) c = front ws := by
  rw [push, if_neg other]
  unfold front
  split <;> simp

theorem push_word (isWord : IsWord word) (other : ¬c.isAlphanum = true) :
    push (word.reverse ++ front ws) c = front (ws ++ [word]) := by
  obtain ⟨last, init, same, mark⟩ := isWord.reverse_eq_cons
  rw [front_concat, push, if_neg other, same]
  simp [mark]

/-- A name that has come to the middle of a run, behind some words, and the text that is still to be
pushed. -/
theorem foldl_push (letters : ∀ c ∈ run, c.isAlphanum = true) (each : ∀ word ∈ ws, IsWord word) :
    ((cs.foldl push ((run.map Char.toLower).reverse ++ front ws)).dropWhile (· == '_')).reverse =
      joined (ws ++ words (run ++ cs)) := by
  induction cs generalizing run ws with
  | nil =>
    rw [List.foldl_nil, List.append_nil]
    by_cases nonempty : run = []
    · subst nonempty
      have none : words [] = [] := rfl
      rw [List.map_nil, List.reverse_nil, List.nil_append, none, List.append_nil]
      rcases List.eq_nil_or_concat ws with rfl | ⟨init, last, rfl⟩
      · rfl
      · rw [List.concat_eq_append] at each ⊢
        rw [front_concat, List.dropWhile_cons_of_pos rfl,
          (each last (by simp)).dropWhile_reverse, joined_concat]
        simp
    · rw [(isWord_run nonempty letters).dropWhile_reverse, words_run nonempty letters, joined_concat]
      simp
  | cons c cs ih =>
    rw [List.foldl_cons]
    by_cases letter : c.isAlphanum = true
    · -- The run goes on.
      have next := ih (letters_concat letters letter) each
      simpa [push, letter] using next
    · rw [words_append_cons (Bool.eq_false_iff.mpr letter)]
      by_cases nonempty : run = []
      · -- Behind no run, nothing is written.
        subst nonempty
        have next := ih (List.forall_mem_nil _) each
        simpa [push_front letter, words] using next
      · -- The run ends and is a further word.
        have isWord := isWord_run nonempty letters
        have more : ∀ word ∈ ws ++ [run.map Char.toLower], IsWord word := by
          intro word member
          rcases List.mem_append.mp member with before | here
          · exact each word before
          · exact List.mem_singleton.mp here ▸ isWord
        have next := ih (List.forall_mem_nil _) more
        rw [push_word isWord letter, words_run nonempty letters]
        simpa using next

theorem words_parts (parts : List String) :
    words (parts.flatMap fun part => part.toList ++ ['_']) =
      parts.flatMap fun part => words part.toList := by
  induction parts with
  | nil => rfl
  | cons part parts ih =>
    rw [List.flatMap_cons, List.flatMap_cons, List.append_assoc, List.singleton_append,
      words_append_cons rfl, ih]

/-- A constraint name consists of the words of its parts. -/
theorem ofParts_eq (parts : List String) :
    ofParts parts = String.ofList (joined (parts.flatMap fun part => words part.toList)) := by
  have pushed : parts.foldl pushPart [] =
      (parts.flatMap fun part => part.toList ++ ['_']).foldl push [] := by
    rw [List.foldl_flatMap]
    simp only [List.foldl_append, List.foldl_cons, List.foldl_nil]
    rfl
  rw [ofParts, pushed, ← words_parts]
  exact congrArg String.ofList (foldl_push (List.forall_mem_nil _) (List.forall_mem_nil _))

example : words "Größe (m²)".toList = [['g', 'r'], ['e'], ['m']] := by decide

/-- Names made of parts are the same exactly if the parts have the same words in a row. -/
theorem ofParts_eq_iff : ofParts parts = ofParts others ↔
    (parts.flatMap fun part => words part.toList) = others.flatMap fun part => words part.toList := by
  have each : ∀ parts : List String, ∀ word ∈ parts.flatMap fun part => words part.toList,
      IsWord word := by
    intro parts word member
    obtain ⟨part, -, inside⟩ := List.mem_flatMap.mp member
    exact isWord_of_mem_words inside
  rw [ofParts_eq, ofParts_eq, String.ofList_inj]
  exact ⟨joined_inj (each parts) (each others), congrArg joined⟩

end LakeSchema.ConstraintName
