import LakeSchema.Proofs.Text.Cutting
import LakeSchema.Proofs.Text.TopLevel
import LakeSchema.Schema.LegacyTag
import Mathlib.Data.List.Basic

/-!
# Tags are read back from their texts

Reading trims a tag, its key and its values. What is read has one text, from which the same tag is
read again, and only blank texts are no tags (`read?_round_trip`).
-/

namespace LakeSchema.LegacyTag

variable {s : String} {tag : LegacyTag} {cs key rest inner front back : List Char}

/-! ### Values of a list -/

/-- A value as lists hold it. -/
structure IsValue (v : String) : Prop where
  trimmed : Text.trim v.toList = v.toList
  nonempty : v ≠ ""
  whole : ',' ∉ v.toList

theorem values_append (front back : List Char) :
    values (front ++ ',' :: back) = values front ++ values back := by
  rw [values, List.splitOn_append_cons_self, List.map_append, List.filter_append]
  rfl

theorem values_space (cs : List Char) : values (' ' :: cs) = values cs := by
  obtain ⟨first, others, split⟩ := List.exists_cons_of_ne_nil (List.splitOn_ne_nil ',' cs)
  have pieces : (' ' :: cs).splitOn ',' = (' ' :: first) :: others := by
    rw [List.splitOn_cons_eq_if_modifyHead, split]
    rfl
  rw [values, values, pieces, split, List.map_cons, List.map_cons, Text.trim_space rfl]

theorem values_single {v : String} (value : IsValue v) : values v.toList = [v] := by
  rw [values, List.splitOn_eq_singleton value.whole, List.map_singleton, value.trimmed,
    String.ofList_toList]
  simp [value.nonempty]

theorem values_intercalate {vs : List String} (nonempty : vs ≠ []) (each : ∀ v ∈ vs, IsValue v) :
    values (", ".intercalate vs).toList = vs := by
  induction vs with
  | nil => contradiction
  | cons v vs ih =>
    obtain ⟨here, later⟩ := List.forall_mem_cons.mp each
    cases vs with
    | nil => rw [String.intercalate_singleton, values_single here]
    | cons w vs =>
      have comma : ", ".toList = [',', ' '] := rfl
      rw [String.intercalate_cons_cons, String.toList_append, String.toList_append, comma,
        List.append_assoc, List.cons_append, List.singleton_append, values_append, values_space,
        values_single here, ih (List.cons_ne_nil w vs) later]
      rfl

theorem not_mem_of_mem_splitOn {mark : Char} {piece : List Char} (member : piece ∈ cs.splitOn mark) :
    mark ∉ piece := by
  induction cs generalizing piece with
  | nil => rw [List.mem_singleton.mp member]; exact List.not_mem_nil
  | cons c cs ih =>
    obtain ⟨first, others, split⟩ := List.exists_cons_of_ne_nil (List.splitOn_ne_nil mark cs)
    rw [split] at ih
    rw [List.splitOn_cons_eq_if_modifyHead, split] at member
    split at member
    · rcases List.mem_cons.mp member with rfl | later
      · exact List.not_mem_nil
      · exact ih later
    · rename_i other
      rcases List.mem_cons.mp member with rfl | later
      · exact List.not_mem_cons_of_ne_of_not_mem (Ne.symm (by simpa using other))
          (ih List.mem_cons_self)
      · exact ih (List.mem_cons_of_mem first later)

theorem isValue_of_mem_values {v : String} (member : v ∈ values inner) : IsValue v := by
  obtain ⟨mapped, nonempty⟩ := List.mem_filter.mp member
  obtain ⟨piece, split, rfl⟩ := List.mem_map.mp mapped
  constructor
  · rw [String.toList_ofList, Text.trim_trim]
  · exact bne_iff_ne.mp nonempty
  · rw [String.toList_ofList]
    exact fun comma => not_mem_of_mem_splitOn split ((Text.trim_isInfix piece).subset comma)

/-! ### Keys -/

/-- A key and what stands behind its colon, as they are read. -/
structure IsParts (key rest : List Char) : Prop where
  trimmedKey : Text.trim key = key
  trimmedRest : Text.trim rest = rest
  keyed : key ≠ []
  filled : rest ≠ []
  whole : ':' ∉ key

theorem IsParts.trim (parts : IsParts key rest) :
    Text.trim (key ++ ':' :: rest) = key ++ ':' :: rest := by
  rw [Text.trim_eq_self_iff]
  constructor
  · obtain ⟨c, more, rfl⟩ := List.exists_cons_of_ne_nil parts.keyed
    exact (Text.trim_eq_self_iff.mp parts.trimmedKey).1
  · rw [List.getLast?_append_of_ne_nil key (List.cons_ne_nil ':' rest),
      List.getLast?_cons_of_ne_nil parts.filled]
    exact (Text.trim_eq_self_iff.mp parts.trimmedRest).2

theorem IsParts.read? (parts : IsParts key rest) (fits : ofParts? key rest = some tag) :
    read? (String.ofList (key ++ ':' :: rest)) = some tag := by
  have solid : (key ++ ':' :: rest).isEmpty = false := by simp
  simp only [LegacyTag.read?, String.toList_ofList, parts.trim, solid, Bool.false_eq_true, if_false,
    Text.cutAt?_append parts.whole, Option.bind_some, parts.trimmedKey, parts.trimmedRest, fits,
    Option.some_or]

/-! ### Reading -/

theorem ofParts?_eq_some (fits : ofParts? key rest = some tag) : key ≠ [] ∧ rest ≠ [] ∧
    (tag = .pair (String.ofList key) (String.ofList rest) ∨
      ∃ inner, tag = .list (String.ofList key) (values inner) ∧ values inner ≠ []) := by
  rw [ofParts?] at fits
  split at fits
  · rename_i inner between
    have bracketed := Text.between?_eq_some_iff.mp between
    split at fits
    · contradiction
    · rename_i filled
      rw [Bool.or_eq_true, not_or, List.isEmpty_iff, List.isEmpty_iff] at filled
      exact ⟨filled.1, by simp [bracketed], .inr ⟨inner, (Option.some.inj fits).symm, filled.2⟩⟩
  · split at fits
    · contradiction
    · rename_i plain
      simp only [Bool.or_eq_true, not_or, List.isEmpty_iff] at plain
      exact ⟨plain.1.2, plain.2, .inl (Option.some.inj fits).symm⟩

theorem trim_brackets (cs : List Char) : Text.trim ('[' :: cs ++ [']']) = '[' :: cs ++ [']'] := by
  refine Text.trim_eq_self_iff.mpr ⟨fun c first => ?_, fun c last => ?_⟩
  · obtain rfl := Option.some.inj first
    rfl
  · rw [List.getLast?_concat] at last
    obtain rfl := Option.some.inj last
    rfl

theorem ofParts?_list {vs : List String} (keyed : key ≠ []) (nonempty : vs ≠ [])
    (each : ∀ v ∈ vs, IsValue v) :
    ofParts? key ('[' :: (", ".intercalate vs).toList ++ [']']) =
      some (.list (String.ofList key) vs) := by
  have between : Text.between? ['['] [']'] ('[' :: (", ".intercalate vs).toList ++ [']']) =
      some (", ".intercalate vs).toList := Text.between?_eq_some_iff.mpr rfl
  have filled : (key.isEmpty || vs.isEmpty) = false := by simp [keyed, nonempty]
  rw [ofParts?, between]
  simp only [values_intercalate nonempty each, filled, Bool.false_eq_true, if_false]

/-- What is read of a text is the trimmed text, or made of a key and the text behind a colon. -/
theorem eq_of_read? (read : read? s = some tag) : tag = .keyword (Text.trimmed s) ∨
    ∃ key rest, IsParts key rest ∧ ofParts? key rest = some tag := by
  rw [LegacyTag.read?] at read
  split at read
  · contradiction
  · rcases Option.or_eq_some_iff.mp read with fits | ⟨-, whole⟩
    · obtain ⟨⟨key, rest⟩, cut, fits⟩ := Option.bind_eq_some_iff.mp fits
      obtain ⟨-, free⟩ := Text.cutAt?_eq_some_iff.mp cut
      obtain ⟨keyed, filled, -⟩ := ofParts?_eq_some fits
      exact .inr ⟨_, _, ⟨Text.trim_trim key, Text.trim_trim rest, keyed, filled,
        fun colon => free ((Text.trim_isInfix key).subset colon)⟩, fits⟩
    · exact .inl (Option.some.inj whole).symm

theorem read?_trimmed (s : String) : read? (Text.trimmed s) = read? s := by
  rw [LegacyTag.read?, Text.trimmed, String.toList_ofList, Text.trim_trim]
  rfl

/-- A tag that has been read is read again from its own text. -/
theorem read?_text (read : read? s = some tag) : read? tag.text = some tag := by
  rcases eq_of_read? read with rfl | ⟨key, rest, parts, fits⟩
  · exact (read?_trimmed s).trans read
  · obtain ⟨keyed, -, rfl | ⟨inner, rfl, filled⟩⟩ := ofParts?_eq_some fits
    · have text : (pair (String.ofList key) (String.ofList rest)).text =
          String.ofList (key ++ ':' :: rest) := String.toList_inj.mp (by simp [LegacyTag.text])
      rw [text, parts.read? fits]
    · have text : (list (String.ofList key) (values inner)).text =
          String.ofList (key ++ ':' :: ('[' :: (", ".intercalate (values inner)).toList ++ [']'])) :=
        String.toList_inj.mp (by simp [LegacyTag.text])
      have bracketed : IsParts key ('[' :: (", ".intercalate (values inner)).toList ++ [']']) :=
        ⟨parts.trimmedKey, trim_brackets _, parts.keyed, List.cons_ne_nil _ _, parts.whole⟩
      rw [text]
      exact bracketed.read? (ofParts?_list keyed filled fun v => isValue_of_mem_values)

theorem read?_eq_none_iff : read? s = none ↔ Text.isBlank s = true := by
  rw [Text.isBlank_iff_trim, LegacyTag.read?]
  split
  · rename_i empty
    exact iff_of_true rfl (List.isEmpty_iff.mp empty)
  · rename_i filled
    exact iff_of_false (by simp) (mt List.isEmpty_iff.mpr filled)

/-- Exactly the blank texts are no tags, and every tag that is read from a text is read again from the
text that it is written with. -/
theorem read?_round_trip (s : String) : (read? s = none ↔ Text.isBlank s = true) ∧
    ∀ tag, read? s = some tag → read? tag.text = some tag :=
  ⟨read?_eq_none_iff, fun _ => read?_text⟩

/-- Values may hold colons and brackets, and blank ones are left out. -/
theorem looseList_round_trip :
    read? " used by : [ a:b ,, [c] ] " = some (.list "used by" ["a:b", "[c]"]) ∧
      (list "used by" ["a:b", "[c]"]).text = "used by:[a:b, [c]]" ∧
      read? "used by:[a:b, [c]]" = some (.list "used by" ["a:b", "[c]"]) := by
  have read : read? " used by : [ a:b ,, [c] ] " = some (.list "used by" ["a:b", "[c]"]) := by decide
  have text : (list "used by" ["a:b", "[c]"]).text = "used by:[a:b, [c]]" := by decide
  exact ⟨read, text, text ▸ (read?_round_trip _).2 _ read⟩

end LakeSchema.LegacyTag
