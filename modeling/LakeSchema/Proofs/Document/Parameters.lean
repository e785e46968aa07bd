import LakeSchema.Document.LegacyType
import LakeSchema.Proofs.Document.Decode
import LakeSchema.Proofs.Json.Source

/-!
# Objects of type parameters

An object of type parameters is written as it was read, up to a scale of zero beside a lone precision
(`TypeParameters.survives_iff`). The exception are the members of structs: they may be read from arrays
and from objects that hold more than a name and a type, and what else these hold is lost.
-/

namespace LakeSchema

open Json Json.Members Decode Fields

/-! ### Members of structs -/

namespace StructMember

variable {m : StructMember} {item : Json}

/-- The value is read as a member of a struct: it is an object that has a name and a type among its
members, or an array of the two. -/
inductive Told : Json → StructMember → Prop where
  | object {m : StructMember} {members : Json.Members}
    (name : members.get? "name" = some (.string m.name))
    (type : members.get? "data_type" = some (.string m.dataType)) : Told (.object members) m
  | array (m : StructMember) : Told (.array [.string m.name, .string m.dataType]) m

theorem Told.decode (told : Told item m) (supply : IdSupply) :
    StructMember.decode item supply = .ok (m, supply) := by
  cases told with
  | object name type =>
    simp only [StructMember.decode, Fields.decode, Fields.apply, Fields.of, required, member, name, type]
    rfl
  | array => rfl

theorem told_of_yields (yields : Decode.Yields StructMember.decode item m) : Told item m := by
  obtain ⟨supply, next, done⟩ := yields
  cases item with
  | object members =>
    obtain ⟨_, _, whole⟩ := From.of_decode done
    obtain ⟨g, type, _, front, second, rfl⟩ := ofObject_apply whole
    obtain ⟨h, name, _, start, first, rfl⟩ := ofObject_apply front
    obtain ⟨rfl, _⟩ := Prod.mk.inj (FieldsResult.read.inj start)
    obtain ⟨_, named, yields⟩ := ofObject_required first
    obtain rfl := yields.string
    obtain ⟨_, typed, yields⟩ := ofObject_required second
    obtain rfl := yields.string
    exact .object named typed
  | array values =>
    obtain ⟨_, whole⟩ := decode_array done
    obtain ⟨g, type, _, _, front, second, rfl⟩ := ofArray_apply whole
    obtain ⟨h, name, _, _, start, first, rfl⟩ := ofArray_apply front
    obtain ⟨⟨rfl, rfl⟩, _⟩ := Prod.mk.inj (Except.ok.inj start)
    obtain ⟨_, rfl, yields⟩ := ofArray_required first
    obtain rfl := yields.string
    obtain ⟨_, rfl, yields⟩ := ofArray_required second
    obtain rfl := yields.string
    exact .array ⟨name, type⟩
  | _ => contradiction

theorem Told.eq_of_toJson {m' : StructMember} (told : Told m'.toJson.sorted m) : m' = m := by
  have read := told.decode ⟨0⟩
  rw [m'.reads ⟨0⟩] at read
  exact congrArg Prod.fst (Except.ok.inj read)

variable {items : List Json} {listed : List StructMember}

theorem exists_told (told : List.Forall₂ Told items listed) : ∀ item ∈ items, ∃ m, Told item m := by
  induction told with
  | nil => exact List.forall_mem_nil _
  | cons first _ ih => exact List.forall_mem_cons.mpr ⟨⟨_, first⟩, ih⟩

theorem eq_map_of_told (told : List.Forall₂ Told items listed)
    (plain : ∀ item ∈ items, ∃ m : StructMember, item = m.toJson.sorted) :
    items = listed.map fun m => m.toJson.sorted := by
  induction told with
  | nil => rfl
  | cons first _ ih =>
    obtain ⟨⟨m, rfl⟩, others⟩ := List.forall_mem_cons.mp plain
    rw [List.map_cons, first.eq_of_toJson, ← ih others]

/-- What can be read item by item is read as a list. -/
theorem items_decode (told : ∀ item ∈ items, ∃ m, Told item m) :
    ∃ listed, ∀ supply, Decode.items StructMember.decode items supply = .ok (listed, supply) := by
  induction items with
  | nil => exact ⟨[], fun _ => rfl⟩
  | cons item rest ih =>
    obtain ⟨⟨m, first⟩, told⟩ := List.forall_mem_cons.mp told
    obtain ⟨listed, others⟩ := ih told
    refine ⟨m :: listed, fun supply => ?_⟩
    rw [Decode.items, bind_eq (first.decode supply), bind_eq (others supply)]
    rfl

end StructMember

/-! ### Shapes -/

namespace TypeParameters

variable {α : Type} {x : α} {names : List String} {fields : Fields α} {members : Json.Members}

theorem exactly?_eq_some (read : exactly? names fields members = some x) :
    (∀ name, name ∉ names → members.get? name = none) ∧
      ∃ next, fields.ofObject members ⟨0⟩ = .read (x, next) := by
  unfold exactly? at read
  split at read
  · rename_i known
    split at read
    · rename_i value next found
      obtain rfl := Option.some.inj read
      refine ⟨fun name unknown => ?_, next, found⟩
      by_contra present
      obtain ⟨value, given⟩ := Option.ne_none_iff_exists'.mp present
      have listed := List.all_eq_true.mp known _ (mem_of_get? given)
      exact unknown (List.contains_iff_mem.mp listed)
    · contradiction
  · contradiction

theorem sorted_object_pair {first second : String} (before : first < second) (value other : Json) :
    (Json.object [(first, value), (second, other)]).sorted =
      .object [(first, value.sorted), (second, other.sorted)] := by
  have ascending : Members.Ascending [(first, value.sorted), (second, other.sorted)] :=
    List.pairwise_pair.mpr before
  rw [sorted_object]
  exact congrArg Json.object (sorted_eq_self ascending)

theorem eq_pair (ascending : members.Ascending) {first second : String} {value : Json}
    (before : first < second) (given : members.get? first = some value)
    (others : ∀ name, name ∉ [first, second] → members.get? name = none) :
    members = (first, value) :: optionalMember second (members.get? second) := by
  refine ascending.ext ?_ fun name => ?_
  · cases members.get? second with
    | none => exact List.pairwise_singleton _ _
    | some other => exact List.pairwise_pair.mpr before
  · rw [get?_cons]
    split
    · rename_i same
      rw [same, given]
    · rename_i apart
      by_cases same : name = second
      · subst same
        cases members.get? name <;> simp [optionalMember, get?]
      · rw [others name (by simp [apart, same])]
        cases members.get? second with
        | none => rfl
        | some other =>
          show none = Members.get? name [(second, other)]
          rw [get?_cons, if_neg same]
          rfl

/-- Of an object with a single member, this member was read. -/
theorem exactly?_single (ascending : members.Ascending) {name : String} {read : Json → Decode α}
    {shape : α → TypeParameters} {parameters : TypeParameters}
    (found : exactly? [name] ((Fields.of shape).apply (required name read)) members =
      some parameters) :
    ∃ value x, members = [(name, value)] ∧ Decode.Yields read value x ∧ parameters = shape x := by
  obtain ⟨others, _, whole⟩ := exactly?_eq_some found
  obtain ⟨g, x, _, start, last, rfl⟩ := ofObject_apply whole
  obtain ⟨rfl, _⟩ := Prod.mk.inj (FieldsResult.read.inj start)
  obtain ⟨value, given, yields⟩ := ofObject_required last
  refine ⟨value, x, ascending.ext (List.pairwise_singleton _ _) fun other => ?_, yields, rfl⟩
  rw [get?_cons]
  split
  · rename_i same
    rw [same, given]
  · rename_i apart
    exact others other (by simpa using apart)

/-- An object is kept as it is, or a scale of zero is put beside a lone precision. -/
def Survives (members : Json.Members) (parameters : TypeParameters) : Prop :=
  parameters.toJson.sorted = .object members ∨
    ∃ precision, members = [("precision", precision)] ∧
      parameters.toJson.sorted = .object [("precision", precision), ("scale", .ofNat 0)]

/-- When a list is read as the members of a struct, these are written as they were given. -/
def StructsPlain (members : Json.Members) : Prop :=
  ∀ items, members = [("fields", .array items)] → (∀ item ∈ items, ∃ m, StructMember.Told item m) →
    ∀ item ∈ items, ∃ m : StructMember, item = m.toJson.sorted

theorem survives_decimal (ascending : members.Ascending) {parameters : TypeParameters}
    (found : exactly? ["precision", "scale"]
      (((Fields.of decimal).apply (required "precision" word32)).apply (orElse "scale" word32 0))
      members = some parameters) : Survives members parameters := by
  obtain ⟨others, _, whole⟩ := exactly?_eq_some found
  obtain ⟨g, scale, _, front, second, rfl⟩ := ofObject_apply whole
  obtain ⟨h, precision, _, start, first, rfl⟩ := ofObject_apply front
  obtain ⟨rfl, _⟩ := Prod.mk.inj (FieldsResult.read.inj start)
  obtain ⟨_, given, yields⟩ := ofObject_required first
  obtain rfl := yields.word32
  have same := eq_pair ascending (by decide) given others
  rcases ofObject_orElse second with ⟨missing, rfl⟩ | ⟨_, scaled, yields⟩
  · exact .inr ⟨_, by rwa [missing] at same, sorted_object_pair (by decide) _ _⟩
  · obtain rfl := yields.word32
    rw [scaled] at same
    exact .inl (same ▸ sorted_object_pair (by decide) _ _)

theorem survives_keyValue (ascending : members.Ascending) {parameters : TypeParameters}
    (found : exactly? ["key_type", "value_type"]
      (((Fields.of keyValue).apply (required "key_type" Decode.string)).apply
        (required "value_type" Decode.string)) members = some parameters) :
    parameters.toJson.sorted = .object members := by
  obtain ⟨others, _, whole⟩ := exactly?_eq_some found
  obtain ⟨g, value, _, front, second, rfl⟩ := ofObject_apply whole
  obtain ⟨h, key, _, start, first, rfl⟩ := ofObject_apply front
  obtain ⟨rfl, _⟩ := Prod.mk.inj (FieldsResult.read.inj start)
  obtain ⟨_, given, yields⟩ := ofObject_required first
  obtain rfl := yields.string
  obtain ⟨_, valued, yields⟩ := ofObject_required second
  obtain rfl := yields.string
  have same := eq_pair ascending (by decide) given others
  rw [valued] at same
  exact same ▸ sorted_object_pair (by decide) _ _

theorem survives_struct (ascending : members.Ascending) (plain : StructsPlain members)
    {parameters : TypeParameters} (found : exactly? ["fields"]
      ((Fields.of struct).apply (required "fields" (list StructMember.decode))) members =
      some parameters) : parameters.toJson.sorted = .object members := by
  obtain ⟨value, listed, rfl, yields, rfl⟩ := exactly?_single ascending found
  obtain ⟨items, rfl, each⟩ := yields.list
  have told := each.imp fun _ _ => StructMember.told_of_yields
  rw [StructMember.eq_map_of_told told (plain items rfl (StructMember.exists_told told)), toJson,
    sorted_object, canonical, sortedMembers, sortedMembers, Json.sorted, sortedItems_eq_map,
    List.map_map]
  rfl

theorem survives_or {first second : Option TypeParameters}
    (left : ∀ parameters, first = some parameters → Survives members parameters)
    (right : ∀ parameters, second = some parameters → Survives members parameters) :
    ∀ parameters, first.or second = some parameters → Survives members parameters :=
  fun parameters found => (Option.or_eq_some_iff.mp found).elim (left parameters) fun later =>
    right parameters later.2

theorem survives_ofMembers (canonical : (Json.object members).Canonical)
    (plain : StructsPlain members) : Survives members (ofMembers members) := by
  have ascending : members.Ascending := Json.object.inj canonical ▸ ascending_canonical members
  unfold ofMembers
  extract_lets shape
  have shaped : ∀ parameters, shape = some parameters → Survives members parameters := by
    refine survives_or (fun _ => survives_decimal ascending) <|
      survives_or (fun _ found => ?length) <| survives_or (fun _ found => ?element) <|
      survives_or (fun _ found => .inl (survives_keyValue ascending found)) <|
      survives_or (fun _ found => .inl (survives_struct ascending plain found)) <|
      survives_or (fun _ found => ?qualifier) fun _ found => ?srid
    case length | srid =>
      obtain ⟨value, n, rfl, yields, rfl⟩ := exactly?_single ascending found
      exact .inl (yields.word32 ▸ rfl)
    case element | qualifier =>
      obtain ⟨value, text, rfl, yields, rfl⟩ := exactly?_single ascending found
      exact .inl (yields.string ▸ rfl)
  cases read : shape with
  | some parameters => exact shaped parameters read
  | none => exact .inl canonical

theorem ofMembers_fields {items : List Json} {listed : List StructMember}
    (canonical : (Json.object [("fields", .array items)]).Canonical)
    (read : ∀ supply, Decode.items StructMember.decode items supply = .ok (listed, supply)) :
    ofMembers [("fields", .array items)] = struct listed := by
  have same : Members.canonical [("fields", .array items)] = [("fields", .array items)] :=
    Json.object.inj canonical
  have found : exactly? ["fields"]
      ((Fields.of struct).apply (required "fields" (list StructMember.decode)))
      [("fields", .array items)] = some (struct listed) := by
    have whole : (list StructMember.decode (.array items)).run ⟨0⟩ = .ok (listed, ⟨0⟩) := read ⟨0⟩
    rw [exactly?, if_pos (by simp)]
    simp only [Fields.apply, Fields.of, required, member, get?_cons, if_true, whole]
  have others : ∀ {α : Type} {names : List String} {fields : Fields α}, "fields" ∉ names →
      exactly? names fields [("fields", .array items)] = none := by
    intro α names fields unknown
    rw [← same]
    exact exactly?_of_unknown unknown
  simp [ofMembers, others, found]

/-- An object of type parameters is read, and written as it was, exactly if it is no list of struct
members that hold more than their names and types. -/
theorem survives_iff (canonical : (Json.object members).Canonical) (supply : IdSupply) :
    decode (.object members) supply = .ok (ofMembers members, supply) ∧
      (Survives members (ofMembers members) ↔ StructsPlain members) := by
  refine ⟨rfl, fun survives items whole told => ?_, survives_ofMembers canonical⟩
  obtain ⟨listed, read⟩ := StructMember.items_decode told
  have struct := ofMembers_fields (whole ▸ canonical) read
  subst whole
  rw [struct] at survives
  rcases survives with kept | ⟨precision, lone, _⟩
  · rw [toJson, sorted_object, Members.canonical, sortedMembers, sortedMembers, Json.sorted,
      sortedItems_eq_map] at kept
    have same : (listed.map StructMember.toJson).map Json.sorted = items := by
      simpa [Members.sorted, put] using kept
    intro item inside
    rw [← same, List.map_map] at inside
    obtain ⟨m, _, rfl⟩ := List.mem_map.mp inside
    exact ⟨m, rfl⟩
  · simp at lone

/-- The members of a length with a collation, which no shape has. -/
def collated : Json.Members :=
  [("collation", .string "utf8"), ("length", .ofNat 10)]

theorem collated_survives : (Json.object collated).Canonical ∧
    decode (.object collated) ⟨0⟩ = .ok (ofMembers collated, ⟨0⟩) ∧
    Survives collated (ofMembers collated) := by
  have canonical : (Json.object collated).Canonical := by
    unfold Json.Canonical
    decide
  have plain : StructsPlain collated := fun items whole => by simp [collated] at whole
  exact ⟨canonical, (survives_iff canonical ⟨0⟩).1, (survives_iff canonical ⟨0⟩).2.mpr plain⟩

/-- A struct whose one member has a comment. -/
def commented : Json.Members :=
  [("fields", .array [.object [("comment", .string "net"), ("data_type", .string "INT"),
    ("name", .string "total")]])]

/-- The comment is lost. -/
theorem commented_not_survives : (Json.object commented).Canonical ∧
    decode (.object commented) ⟨0⟩ = .ok (struct [⟨"total", "INT"⟩], ⟨0⟩) ∧
    ¬ Survives commented (struct [⟨"total", "INT"⟩]) := by
  refine ⟨?_, rfl, ?_⟩
  · unfold Json.Canonical
    decide
  · rintro (same | ⟨precision, lone, _⟩)
    · exact absurd same (by decide)
    · simp [commented] at lone

/-! ### Parameters told apart -/

theorem eq_of_toJson {p q : TypeParameters} (first : p.Faithful) (second : q.Faithful)
    (same : p.toJson = q.toJson) : p = q := by
  have read := p.reads first ⟨0⟩
  rw [same, q.reads second ⟨0⟩] at read
  exact (congrArg Prod.fst (Except.ok.inj read)).symm

/-- Texts only give parameters of the known shapes. -/
theorem faithful_of_ofText? {keyword text : String} {p : TypeParameters}
    (read : ofText? keyword text = some p) : p.Faithful := by
  cases p with
  | other members =>
    exfalso
    unfold ofText? at read
    dsimp only at read
    repeat' split at read
    all_goals simp [Option.bind_eq_some_iff] at read
  | _ => trivial

end TypeParameters
end LakeSchema
