import LakeSchema.Document.Normalise
import LakeSchema.Proofs.Json.Members

/-!
# What normalising makes of a field

A field of a document is rewritten member by member. Its type text leaves a keyword
(`get?_field_dataType`), the parameter text that counts is that of its own or else the one inside of the
type text (`countedText?`), and a foreign key written as text is resolved or dropped (`field_resolved`,
`field_unresolved`).
-/

namespace LakeSchema

namespace Json.Members

theorem get?_erase (name other : String) (members : Members) :
    (members.erase name).get? other = if other = name then none else members.get? other := by
  induction members with
  | nil => simp [Members.erase, Members.get?]
  | cons first rest ih =>
    rw [Members.erase] at ih ⊢
    rw [List.filter_cons]
    split <;> rename_i kept
    · have apart : first.1 ≠ name := by simpa using kept
      rw [get?_cons, ih, get?_cons]
      grind
    · have same : first.1 = name := by simpa using kept
      rw [ih, get?_cons]
      grind

end Json.Members

namespace Document

open Json (Members)

variable {members : Members} {index : List TableNames} {table other text : String}

/-! ### What each step leaves alone -/

theorem get?_tags (apart : other ≠ "tags") : (tags members).get? other = members.get? other := by
  unfold tags
  split
  · rw [Members.get?_put, if_neg apart]
  · rw [Members.get?_erase, if_neg apart]
  · rfl

theorem memberText_tags {name : String} (apart : name ≠ "tags") :
    memberText name (tags members) = memberText name members := by
  rw [memberText, get?_tags apart, memberText]

theorem get?_dataType (apart : other ≠ "data_type") :
    (dataType members).1.get? other = members.get? other := by
  unfold dataType
  split
  · exact (Members.get?_put _ _ _ _).trans (if_neg apart)
  · rfl

theorem get?_typeParameters {name : String} {text : Option String} (apart : other ≠ "type_parameters") :
    (typeParameters table name text members).1.get? other = members.get? other := by
  unfold typeParameters
  split
  · rfl
  · dsimp only
    split
    · exact (Members.get?_put _ _ _ _).trans (if_neg apart)
    · exact (Members.get?_erase _ _ _).trans (if_neg apart)

theorem get?_foreignKey {name : String} (key : other ≠ "foreign_key_reference")
    (flag : other ≠ "is_foreign_key") :
    (foreignKey index table name members).1.get? other = members.get? other := by
  unfold foreignKey
  split
  · split
    · exact ((Members.get?_put _ _ _ _).trans (if_neg flag)).trans
        ((Members.get?_put _ _ _ _).trans (if_neg key))
    · exact ((Members.get?_put _ _ _ _).trans (if_neg flag)).trans
        ((Members.get?_erase _ _ _).trans (if_neg key))
  · rfl

/-! ### Types -/

/-- The type text of a field, taken apart. -/
def typeText? (members : Members) : Option TypeText :=
  ((members.get? "data_type").bind Json.asString?).map TypeText.ofText

/-- The keyword of a field once its type text is taken apart; empty without one. -/
def keyword (members : Members) : String :=
  ((typeText? members).map TypeText.keyword).getD ""

/-- The parameter text inside of the type text of a field. -/
def innerText? (members : Members) : Option String :=
  (typeText? members).bind TypeText.parameters

/-- The parameter text that counts: the field's own one before that inside of its type text. -/
def countedText? (members : Members) : Option String :=
  (parameterText? members).or (innerText? members)

theorem dataType_snd (members : Members) : (dataType members).2 = countedText? members := by
  unfold dataType countedText? innerText? typeText?
  split
  · rename_i text given
    rw [given]
    rfl
  · rename_i other
    cases given : members.get? "data_type" with
    | none => simp
    | some value =>
      cases value with
      | string text => exact absurd given (other text)
      | _ => simp [Json.asString?]

theorem memberText_dataType (members : Members) :
    memberText "data_type" (dataType members).1 = keyword members := by
  unfold dataType keyword typeText? memberText
  split
  · rename_i text given
    rw [given, Members.get?_put, if_pos rfl]
    rfl
  · rename_i other
    cases given : members.get? "data_type" with
    | none => rfl
    | some value =>
      cases value with
      | string text => exact absurd given (other text)
      | _ => rfl

theorem typeText?_tags : typeText? (tags members) = typeText? members := by
  rw [typeText?, get?_tags (by decide), typeText?]

theorem keyword_tags : keyword (tags members) = keyword members := by
  rw [keyword, typeText?_tags, keyword]

theorem countedText?_tags : countedText? (tags members) = countedText? members := by
  rw [countedText?, innerText?, typeText?_tags, parameterText?, get?_tags (by decide)]
  rfl

/-- A field with its type in parts, before its foreign key is looked at. -/
def typed (table : String) (members : Members) : Members × List Warning :=
  typeParameters table (memberText "name" members) (countedText? members)
    (dataType (tags members)).1

theorem field_eq (index : List TableNames) (table : String) (members : Members) :
    field index table members =
      let typed := typed table members
      let keyed := foreignKey index table (memberText "name" members) typed.1
      (keyed.1, typed.2 ++ keyed.2) := by
  have text := (dataType_snd (tags members)).trans countedText?_tags
  have name : memberText "name" (tags members) = memberText "name" members :=
    memberText_tags (by decide)
  simp only [field, typed, text, name]

theorem get?_typed (tag : other ≠ "tags") (type : other ≠ "data_type")
    (parameters : other ≠ "type_parameters") :
    (typed table members).1.get? other = members.get? other := by
  rw [typed, get?_typeParameters parameters, get?_dataType type, get?_tags tag]

theorem get?_field (tag : other ≠ "tags") (type : other ≠ "data_type")
    (parameters : other ≠ "type_parameters") (key : other ≠ "foreign_key_reference")
    (flag : other ≠ "is_foreign_key") :
    (field index table members).1.get? other = members.get? other := by
  rw [field_eq]
  exact (get?_foreignKey key flag).trans (get?_typed tag type parameters)

theorem get?_field_dataType (given : members.get? "data_type" = some (.string text)) :
    (field index table members).1.get? "data_type" = some (.string (TypeText.ofText text).keyword) := by
  have present : (tags members).get? "data_type" = some (.string text) := by
    rw [get?_tags (by decide), given]
  rw [field_eq]
  simp only
  rw [get?_foreignKey (by decide) (by decide), typed, get?_typeParameters (by decide)]
  simp only [dataType, present]
  rw [Members.get?_put, if_pos rfl]

/-- The parameters of a field as its text gives them, with the warning when it does not fit. -/
theorem field_parameters (counted : countedText? members = some text) :
    (field index table members).1.get? "type_parameters" =
        (TypeParameters.ofText? (keyword members) text).map TypeParameters.toJson ∧
      (TypeParameters.ofText? (keyword members) text = none → Text.isBlank text = false →
        .parametersDropped table (memberText "name" members) text (keyword members) ∈
          (field index table members).2) := by
  rw [field_eq]
  simp only
  rw [get?_foreignKey (by decide) (by decide), typed, counted]
  simp only [typeParameters, memberText_dataType, keyword_tags]
  cases TypeParameters.ofText? (keyword members) text with
  | some parameters => exact ⟨(Members.get?_put _ _ _ _).trans (if_pos rfl), nofun⟩
  | none =>
    refine ⟨(Members.get?_erase _ _ _).trans (if_pos rfl), fun _ solid => ?_⟩
    rw [if_neg (by simp [solid])]
    exact List.mem_append_left _ (List.mem_singleton_self _)

theorem field_untexted (uncounted : countedText? members = none) :
    (field index table members).1.get? "type_parameters" = members.get? "type_parameters" := by
  rw [field_eq]
  simp only
  rw [get?_foreignKey (by decide) (by decide), typed, uncounted]
  exact (get?_dataType (by decide)).trans (get?_tags (by decide))

/-! ### Foreign keys -/

/-- The reference that stands for a dotted text. -/
def referenceTo (target : Location) : Json :=
  .object [("referenced_field_id", .string target.field),
    ("referenced_table_id", .string target.table)]

theorem field_resolved {target : Location}
    (given : members.get? "foreign_key_reference" = some (.string text))
    (resolved : resolve? index text = some target) :
    (field index table members).1.get? "foreign_key_reference" = some (referenceTo target) ∧
      (field index table members).1.get? "is_foreign_key" = some (.bool true) ∧
      (field index table members).2 = (typed table members).2 := by
  have present : (typed table members).1.get? "foreign_key_reference" = some (.string text) := by
    rw [get?_typed (by decide) (by decide) (by decide), given]
  rw [field_eq]
  simp only [foreignKey, present, resolved, List.append_nil, and_true]
  exact ⟨((Members.get?_put _ _ _ _).trans (if_neg (by decide))).trans
    ((Members.get?_put _ _ _ _).trans (if_pos rfl)), (Members.get?_put _ _ _ _).trans (if_pos rfl)⟩

theorem field_unresolved (given : members.get? "foreign_key_reference" = some (.string text))
    (missing : resolve? index text = none) :
    (field index table members).1.get? "foreign_key_reference" = none ∧
      (field index table members).1.get? "is_foreign_key" = some (.bool false) ∧
      (field index table members).2 = (typed table members).2 ++
        [.keyTextDropped table (memberText "name" members) text] := by
  have present : (typed table members).1.get? "foreign_key_reference" = some (.string text) := by
    rw [get?_typed (by decide) (by decide) (by decide), given]
  rw [field_eq]
  simp only [foreignKey, present, missing, and_true]
  exact ⟨((Members.get?_put _ _ _ _).trans (if_neg (by decide))).trans
    ((Members.get?_erase _ _ _).trans (if_pos rfl)), (Members.get?_put _ _ _ _).trans (if_pos rfl)⟩

/-- Warnings about the type of a field are about its parameters. -/
theorem mem_typed_warnings {w : Warning} (warned : w ∈ (typed table members).2) :
    ∃ text, countedText? members = some text ∧
      TypeParameters.ofText? (keyword members) text = none ∧ Text.isBlank text = false ∧
      w = .parametersDropped table (memberText "name" members) text (keyword members) := by
  rw [typed] at warned
  cases counted : countedText? members with
  | none =>
    rw [counted] at warned
    cases warned
  | some text =>
    simp only [counted, typeParameters, memberText_dataType, keyword_tags] at warned
    split at warned
    · cases warned
    · rename_i misfit
      split at warned
      · cases warned
      · rename_i solid
        exact ⟨text, rfl, misfit, by simpa using solid, List.mem_singleton.mp warned⟩

/-- Warnings about the foreign key of a field name the field and quote its text. -/
theorem mem_foreignKey_warnings {name : String} {w : Warning}
    (warned : w ∈ (foreignKey index table name members).2) :
    ∃ text, w = .keyTextDropped table name text := by
  unfold foreignKey at warned
  split at warned
  · split at warned
    · cases warned
    · exact ⟨_, List.mem_singleton.mp warned⟩
  · cases warned

/-- Only parameters that do not fit the type of the field are dropped. -/
theorem misfit_of_parametersDropped {place name word : String}
    (dropped : .parametersDropped place name text word ∈ (field index table members).2) :
    (countedText? members = some text ∧ TypeParameters.ofText? (keyword members) text = none ∧
      Text.isBlank text = false) ∧
      place = table ∧ name = memberText "name" members ∧ word = keyword members := by
  rcases List.mem_append.mp (field_eq index table members ▸ dropped) with typed | keyed
  · obtain ⟨own, counted, misfit, solid, same⟩ := mem_typed_warnings typed
    obtain ⟨rfl, rfl, rfl, rfl⟩ := Warning.parametersDropped.inj same
    exact ⟨⟨counted, misfit, solid⟩, rfl, rfl, rfl⟩
  · obtain ⟨dotted, other⟩ := mem_foreignKey_warnings keyed
    contradiction

end Document
end LakeSchema
