import LakeSchema.Json.Decode
import LakeSchema.Proofs.Except
import LakeSchema.Proofs.Json.Members

/-!
# Where values were read from

`Yields` says that a value can be read as something. When a description of an object yields a whole,
each of its parts was read in turn: from the member of its name, or from its place in an array
(`ofObject_apply`, `ofArray_apply`). A list was read item by item (`Yields.list`).
-/

namespace LakeSchema

variable {α β : Type} {x : α} {value : Json} {values : List Json} {members : Json.Members}
  {name : String} {supply next : IdSupply}

/-- The value is read as `x` with some supply of identifiers. -/
def Decode.Yields (read : Json → Decode α) (value : Json) (x : α) : Prop :=
  ∃ supply next, read value supply = .ok (x, next)

namespace Decode

theorem bind_eq_ok {first : Decode α} {rest : α → Decode β} {y : β}
    (done : (first >>= rest) supply = .ok (y, next)) :
    ∃ x middle, first supply = .ok (x, middle) ∧ rest x middle = .ok (y, next) := by
  obtain ⟨⟨x, middle⟩, read, done⟩ := LakeSchema.bind_eq_ok_iff.mp done
  exact ⟨x, middle, read, done⟩

theorem pure_eq_ok {y : α} (done : (pure x : Decode α) supply = .ok (y, next)) : y = x :=
  (congrArg Prod.fst (Except.ok.inj done)).symm

theorem items_eq_ok {read : Json → Decode α} {xs : List α}
    (done : items read values supply = .ok (xs, next)) :
    List.Forall₂ (Yields read) values xs := by
  induction values generalizing supply next xs with
  | nil =>
    obtain rfl := pure_eq_ok done
    exact .nil
  | cons value rest ih =>
    obtain ⟨x, middle, first, done⟩ := bind_eq_ok done
    obtain ⟨others, after, later, done⟩ := bind_eq_ok done
    obtain rfl := pure_eq_ok done
    exact .cons ⟨supply, middle, first⟩ (ih later)

/-- The items of a value that is read as a list. -/
theorem Yields.list {read : Json → Decode α} {xs : List α} (yields : Yields (list read) value xs) :
    ∃ items, value = .array items ∧ List.Forall₂ (Yields read) items xs := by
  obtain ⟨supply, next, done⟩ := yields
  unfold Decode.list at done
  split at done
  · rename_i items
    exact ⟨items, rfl, items_eq_ok done⟩
  · contradiction

theorem Yields.string {s : String} (yields : Yields string value s) : value = .string s := by
  obtain ⟨supply, next, done⟩ := yields
  unfold Decode.string at done
  split at done
  · rw [pure_eq_ok done]
  · contradiction

theorem Yields.word32 {n : UInt32} (yields : Yields word32 value n) : value = .word n := by
  obtain ⟨supply, next, done⟩ := yields
  unfold Decode.word32 at done
  split at done
  · rename_i k
    split at done
    · rename_i range
      obtain ⟨lower, upper⟩ := range
      obtain ⟨k, rfl⟩ := Int.eq_ofNat_of_zero_le lower
      have small : k < 2 ^ 32 := Int.ofNat_lt.mp upper
      rw [pure_eq_ok done, Json.word, Int.toNat_natCast, UInt32.toNat_ofNat_of_lt' small]
      rfl
    · contradiction
  · contradiction

end Decode

namespace Fields

/-! ### Objects -/

theorem ofObject_apply {f : Fields (α → β)} {a : Fields α} {y : β}
    (done : (f.apply a).ofObject members supply = .read (y, next)) :
    ∃ g x middle, f.ofObject members supply = .read (g, middle) ∧
      a.ofObject members middle = .read (x, next) ∧ y = g x := by
  simp only [apply] at done
  split at done
  · rename_i g middle first
    split at done
    · rename_i x after second
      obtain ⟨rfl, rfl⟩ := Prod.mk.inj (FieldsResult.read.inj done)
      exact ⟨g, x, middle, first, second, rfl⟩
    · contradiction
    · contradiction
  · split at done
    · split at done <;> contradiction
    · contradiction
  · split at done <;> contradiction

/-- What was taken for a member: what its value is read as, or what stands for it when it is missing. -/
def Taken (name : String) (read : Json → Decode α) (absent : Option (Decode α))
    (members : Json.Members) (x : α) : Prop :=
  (∃ value, members.get? name = some value ∧ Decode.Yields read value x) ∨
    members.get? name = none ∧ ∃ other supply next, absent = some other ∧ other supply = .ok (x, next)

theorem taken_of_ofObject {read : Json → Decode α} {absent : Option (Decode α)}
    (done : (member name read absent).ofObject members supply = .read (x, next)) :
    Taken name read absent members x := by
  simp only [member] at done
  split at done
  · rename_i value given
    split at done
    · rename_i result found
      obtain rfl := FieldsResult.read.inj done
      exact .inl ⟨value, given, supply, next, found⟩
    · contradiction
  · rename_i other missing
    split at done
    · rename_i result found
      obtain rfl := FieldsResult.read.inj done
      exact .inr ⟨missing, other, supply, next, rfl, found⟩
    · contradiction
  · contradiction

theorem Taken.required {read : Json → Decode α} (taken : Taken name read none members x) :
    ∃ value, members.get? name = some value ∧ Decode.Yields read value x :=
  taken.resolve_right fun ⟨_, _, _, _, given, _⟩ => nomatch given

theorem Taken.orElse {read : Json → Decode α} {absent : α}
    (taken : Taken name read (some (pure absent)) members x) :
    members.get? name = none ∧ x = absent ∨
      ∃ value, members.get? name = some value ∧ Decode.Yields read value x := by
  rcases taken with given | ⟨missing, other, supply, next, same, done⟩
  · exact .inr given
  · obtain rfl := Option.some.inj same
    exact .inl ⟨missing, Decode.pure_eq_ok done⟩

theorem ofObject_orElse {read : Json → Decode α} {absent : α}
    (done : (orElse name read absent).ofObject members supply = .read (x, next)) :
    members.get? name = none ∧ x = absent ∨
      ∃ value, members.get? name = some value ∧ Decode.Yields read value x :=
  (taken_of_ofObject done).orElse

theorem ofObject_required {read : Json → Decode α}
    (done : (required name read).ofObject members supply = .read (x, next)) :
    ∃ value, members.get? name = some value ∧ Decode.Yields read value x :=
  (taken_of_ofObject done).required

/-- What is read from an object is known by what was taken for its members. -/
structure Tells (fields : Fields α) (property : Json.Members → α → Prop) : Prop where
  told : ∀ {members supply x next}, fields.ofObject members supply = .read (x, next) →
    property members x

theorem Tells.of {property : Json.Members → α → Prop} (holds : ∀ members, property members x) :
    (Fields.of x).Tells property where
  told done := by
    obtain ⟨rfl, _⟩ := Prod.mk.inj (FieldsResult.read.inj done)
    exact holds _

theorem Tells.apply {f : Fields (α → β)} {property : Json.Members → β → Prop} {read : Json → Decode α}
    {absent : Option (Decode α)}
    (tells : f.Tells fun members g => ∀ x, Taken name read absent members x → property members (g x)) :
    (f.apply (member name read absent)).Tells property where
  told done := by
    obtain ⟨g, x, middle, first, second, rfl⟩ := ofObject_apply done
    exact tells.told first x (taken_of_ofObject second)

/-! ### Arrays -/

variable {expected : String} {position : Nat} {rest : List Json}

theorem ofArray_apply {f : Fields (α → β)} {a : Fields α} {y : β}
    (done : (f.apply a).ofArray expected position values supply = .ok ((y, rest), next)) :
    ∃ g x left middle, f.ofArray expected position values supply = .ok ((g, left), middle) ∧
      a.ofArray expected (position + f.count) left middle = .ok ((x, rest), next) ∧ y = g x := by
  obtain ⟨⟨g, left⟩, middle, first, done⟩ := Decode.bind_eq_ok done
  obtain ⟨⟨x, last⟩, after, second, done⟩ := Decode.bind_eq_ok done
  obtain ⟨⟨rfl, rfl⟩, rfl⟩ := Prod.mk.inj (Except.ok.inj done)
  exact ⟨g, x, left, middle, first, second, rfl⟩

theorem ofArray_member {read : Json → Decode α} {absent : Option (Decode α)}
    (done : (member name read absent).ofArray expected position values supply =
      .ok ((x, rest), next)) :
    rest = values.drop 1 ∧ (values = [] ∨ ∃ value, values.head? = some value ∧
      Decode.Yields read value x) := by
  simp only [member] at done
  split at done
  · rename_i value later
    obtain ⟨y, middle, found, done⟩ := Decode.bind_eq_ok done
    obtain ⟨rfl, rfl⟩ := Prod.mk.inj (Decode.pure_eq_ok done)
    exact ⟨rfl, .inr ⟨value, rfl, supply, middle, found⟩⟩
  · obtain ⟨y, middle, found, done⟩ := Decode.bind_eq_ok done
    obtain ⟨rfl, rfl⟩ := Prod.mk.inj (Decode.pure_eq_ok done)
    exact ⟨rfl, .inl rfl⟩
  · contradiction

theorem ofArray_orElse {read : Json → Decode α} {absent : α}
    (done : (orElse name read absent).ofArray expected position values supply =
      .ok ((x, rest), next)) :
    values = [] ∧ x = absent ∨ ∃ value, values.head? = some value ∧ Decode.Yields read value x := by
  rcases (ofArray_member done).2 with rfl | given
  · obtain ⟨y, middle, found, done⟩ := Decode.bind_eq_ok done
    obtain rfl := Decode.pure_eq_ok found
    exact .inl ⟨rfl, congrArg Prod.fst (Decode.pure_eq_ok done)⟩
  · exact .inr given

theorem ofArray_required {read : Json → Decode α}
    (done : (required name read).ofArray expected position values supply = .ok ((x, rest), next)) :
    ∃ value, values = value :: rest ∧ Decode.Yields read value x := by
  cases values with
  | nil => contradiction
  | cons value later =>
    obtain ⟨y, middle, found, done⟩ := Decode.bind_eq_ok done
    obtain ⟨rfl, rfl⟩ := Prod.mk.inj (Decode.pure_eq_ok done)
    exact ⟨value, rfl, supply, middle, found⟩

/-- Of an array that is read, nothing is left over. -/
theorem decode_array {type : String} {fields : Fields α}
    (done : fields.decode type (.array values) supply = .ok (x, next)) :
    ∃ expected, fields.ofArray expected 0 values supply = .ok ((x, []), next) := by
  obtain ⟨⟨y, rest⟩, middle, found, done⟩ := Decode.bind_eq_ok done
  change (if rest.isEmpty then pure y else Decode.fail _ : Decode α) middle = _ at done
  split at done
  · rename_i whole
    obtain ⟨rfl, rfl⟩ := Prod.mk.inj (Except.ok.inj done)
    exact ⟨_, List.isEmpty_iff.mp whole ▸ found⟩
  · contradiction

/-! ### Records -/

/-- A part of a record, by its name in an object and by its place in an array. -/
def part? (name : String) (place : Nat) : Json → Option Json
  | .object members => Json.Members.get? name members
  | .array values => values[place]?
  | _ => none

/-- Whatever the description reads has a property, and arrays are read from as many places as it
counts. -/
structure Builds (fields : Fields α) (property : α → Prop) : Prop where
  object : ∀ {members supply x next}, fields.ofObject members supply = .read (x, next) → property x
  array : ∀ {expected position values supply x rest next},
    fields.ofArray expected position values supply = .ok ((x, rest), next) →
      property x ∧ rest = values.drop fields.count

theorem Builds.of {property : α → Prop} (holds : property x) : (Fields.of x).Builds property where
  object done := by
    obtain ⟨rfl, _⟩ := Prod.mk.inj (FieldsResult.read.inj done)
    exact holds
  array done := by
    obtain ⟨rfl, rfl⟩ := Prod.mk.inj (Decode.pure_eq_ok done)
    exact ⟨holds, rfl⟩

theorem Builds.apply {f : Fields (α → β)} {property : β → Prop} {read : Json → Decode α}
    {absent : Option (Decode α)} (builds : f.Builds fun g => ∀ x, property (g x)) :
    (f.apply (member name read absent)).Builds property where
  object done := by
    obtain ⟨g, x, middle, first, _, rfl⟩ := ofObject_apply done
    exact builds.object first x
  array done := by
    obtain ⟨g, x, left, middle, first, second, rfl⟩ := ofArray_apply done
    obtain ⟨holds, rfl⟩ := builds.array first
    obtain ⟨rfl, _⟩ := ofArray_member second
    exact ⟨holds x, List.drop_drop⟩

/-- The description reads `x` from a record. -/
def From (fields : Fields α) (document : Json) (x : α) : Prop :=
  match document with
  | .object members => ∃ supply next, fields.ofObject members supply = .read (x, next)
  | .array values => ∃ expected rest supply next,
      fields.ofArray expected 0 values supply = .ok ((x, rest), next)
  | _ => False

theorem From.of_decode {type : String} {fields : Fields α} {document : Json}
    (done : fields.decode type document supply = .ok (x, next)) : fields.From document x := by
  unfold decode at done
  split at done
  · split at done
    · rename_i result found
      obtain rfl := Except.ok.inj done
      exact ⟨supply, next, found⟩
    · contradiction
    · contradiction
  · obtain ⟨expected, found⟩ := decode_array done
    exact ⟨expected, [], supply, next, found⟩
  · contradiction

theorem From.property {fields : Fields α} {property : α → Prop} {document : Json}
    (found : fields.From document x) (builds : fields.Builds property) : property x := by
  cases document with
  | object members =>
    obtain ⟨supply, next, done⟩ := found
    exact builds.object done
  | array values =>
    obtain ⟨expected, rest, supply, next, done⟩ := found
    exact (builds.array done).1
  | _ => exact found.elim

/-- The last part of a record comes from the place behind the others. -/
theorem From.last {f : Fields (α → β)} {read : Json → Decode α} {absent : α} {y : β}
    {document : Json} (found : (f.apply (orElse name read absent)).From document y)
    (builds : f.Builds fun _ => True) :
    ∃ g x, f.From document g ∧ y = g x ∧
      (part? name f.count document = none ∧ x = absent ∨
        ∃ value, part? name f.count document = some value ∧ Decode.Yields read value x) := by
  cases document with
  | object members =>
    obtain ⟨supply, next, done⟩ := found
    obtain ⟨g, x, middle, first, second, same⟩ := ofObject_apply done
    exact ⟨g, x, ⟨supply, middle, first⟩, same, ofObject_orElse second⟩
  | array values =>
    obtain ⟨expected, rest, supply, next, done⟩ := found
    obtain ⟨g, x, left, middle, first, second, same⟩ := ofArray_apply done
    obtain ⟨_, rfl⟩ := builds.array first
    refine ⟨g, x, ⟨expected, _, supply, middle, first⟩, same, ?_⟩
    rcases ofArray_orElse second with ⟨none, missing⟩ | ⟨value, here, yields⟩
    · exact .inl ⟨List.getElem?_eq_none (List.drop_eq_nil_iff.mp none), missing⟩
    · exact .inr ⟨value, by rwa [List.head?_drop] at here, yields⟩
  | _ => exact found.elim

end Fields
end LakeSchema
