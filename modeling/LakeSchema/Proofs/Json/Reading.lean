import LakeSchema.Json.Decode
import LakeSchema.Proofs.Json.Members

/-!
# Reading what was written

`Reads` says that a value is read as what it was written for, without an identifier being taken on
the way. A description of an object reads the sorted object when each of its members does.
-/

namespace LakeSchema

open Json Json.Members

variable {α β : Type} {x : α} {value : Json} {name : String} {listed : Json.Members}

/-- The value is read as `x`, and the supply of identifiers stays as it is. -/
def Decode.Reads (read : Json → Decode α) (value : Json) (x : α) : Prop :=
  ∀ supply, read value supply = .ok (x, supply)

/-- The members are read as `x`, and the supply of identifiers stays as it is. -/
def Fields.Reads (fields : Fields α) (members : Json.Members) (x : α) : Prop :=
  ∀ supply, fields.ofObject members supply = .read (x, supply)

namespace Decode

variable {supply next : IdSupply}

theorem bind_eq {first : Decode α} {rest : α → Decode β} (read : first supply = .ok (x, next)) :
    (first >>= rest) supply = rest x next := by
  show Except.bind (first supply) (fun result => rest result.1 result.2) = _
  rw [read]
  rfl

theorem map_eq {first : Decode α} {f : α → β} (read : first supply = .ok (x, next)) :
    (f <$> first) supply = .ok (f x, next) := by
  show Except.bind (first supply) (fun result => .ok (f result.1, result.2)) = _
  rw [read]
  rfl

theorem reads_string (s : String) : Reads string (Json.string s).sorted s :=
  fun _ => rfl

theorem reads_bool (b : Bool) : Reads bool (Json.bool b).sorted b :=
  fun _ => rfl

theorem reads_word32 (n : UInt32) : Reads word32 (Json.word n).sorted n := by
  intro supply
  have inside : (0 : Int) ≤ n.toNat ∧ (n.toNat : Int) < Nat.pow 2 32 :=
    ⟨Int.natCast_nonneg _, Int.ofNat_lt.mpr n.toNat_lt⟩
  have same : UInt32.ofNat (n.toNat : Int).toNat = n := by
    rw [Int.toNat_natCast, UInt32.ofNat_toNat]
  show word32 (.number (.whole n.toNat)) supply = _
  rw [word32, if_pos inside, same]
  rfl

theorem reads_binary64 {x : Binary64} (finite : x.isFinite = true) :
    Reads binary64 (Json.real x).sorted x := by
  intro supply
  rw [Json.real, if_pos finite]
  rfl

theorem reads_opaqueValue (canonical : value.sorted = value) :
    Reads opaqueValue value.sorted value :=
  fun _ => by rw [canonical]; rfl

theorem reads_items {read : Json → Decode α} {write : α → Json} {xs : List α}
    (each : ∀ x ∈ xs, Reads read (write x).sorted x) (supply : IdSupply) :
    items read (sortedItems (xs.map write)) supply = .ok (xs, supply) := by
  induction xs with
  | nil => rfl
  | cons x rest ih =>
    have first := each x List.mem_cons_self supply
    have others := ih fun y later => each y (List.mem_cons_of_mem x later)
    rw [List.map_cons, sortedItems, items, bind_eq first, bind_eq others]
    rfl

theorem reads_list {read : Json → Decode α} {write : α → Json} {xs : List α}
    (each : ∀ x ∈ xs, Reads read (write x).sorted x) :
    Reads (list read) (Json.array (xs.map write)).sorted xs :=
  reads_items each

theorem reads_strings (texts : List String) :
    Reads (list string) (Json.strings texts).sorted texts :=
  reads_list fun s _ => reads_string s

theorem reads_choice {choices : List (α × List String)} {text : String}
    (listed : (choices.find? fun choice => choice.2.contains text).map Prod.fst = some x) :
    Reads (choice choices) (Json.string text).sorted x := by
  obtain ⟨entry, found, rfl⟩ := Option.map_eq_some_iff.mp listed
  intro supply
  show variant choices text supply = _
  rw [variant, found]
  rfl

theorem reads_some {read : Json → Decode α} (solid : value ≠ .null) (reads : Reads read value x) :
    Reads (option read) value (some x) := by
  intro supply
  unfold option
  split
  · contradiction
  · exact map_eq (reads supply)

end Decode

namespace Fields

theorem Reads.of (x : α) : (Fields.of x).Reads (canonical listed) x :=
  fun _ => rfl

theorem Reads.apply {f : Fields (α → β)} {a : Fields α} {g : α → β}
    (first : f.Reads (canonical listed) g) (second : a.Reads (canonical listed) x) :
    (f.apply a).Reads (canonical listed) (g x) := by
  intro supply
  simp only [Fields.apply, first supply, second supply]

theorem reads_member {read : Json → Decode α} {absent : Option (Decode α)}
    (found : latest? name listed = some value) (reads : Decode.Reads read value.sorted x) :
    (member name read absent).Reads (canonical listed) x := by
  intro supply
  have present : (canonical listed).get? name = some value.sorted := by
    rw [get?_canonical, found]
    rfl
  have result : (read value.sorted).run supply = .ok (x, supply) := reads supply
  simp only [member, present, result]

theorem reads_required {read : Json → Decode α} (found : latest? name listed = some value)
    (reads : Decode.Reads read value.sorted x) : (required name read).Reads (canonical listed) x :=
  reads_member found reads

theorem reads_orElse {read : Json → Decode α} {absent : α} (found : latest? name listed = some value)
    (reads : Decode.Reads read value.sorted x) : (orElse name read absent).Reads (canonical listed) x :=
  reads_member found reads

theorem reads_idOrFresh {id : String} (found : latest? name listed = some (.string id)) :
    (idOrFresh name).Reads (canonical listed) id :=
  reads_member found (Decode.reads_string id)

theorem reads_absent {read : Json → Decode α} (missing : latest? name listed = none) :
    (orElse name read x).Reads (canonical listed) x := by
  intro supply
  have absent : (canonical listed).get? name = none := by
    rw [get?_canonical, missing]
    rfl
  simp only [orElse, member, absent]
  rfl

theorem sorted_eq_null_iff : value.sorted = .null ↔ value = .null := by
  cases value <;> simp [Json.sorted]

theorem reads_optional {read : Json → Decode α} {o : Option α} (write : α → Json)
    (found : latest? name listed = o.map write) (written : ∀ x, o = some x → write x ≠ .null)
    (reads : ∀ x, o = some x → Decode.Reads read (write x).sorted x) :
    (optional name read).Reads (canonical listed) o := by
  cases o with
  | none => exact reads_absent found
  | some x =>
    have solid : (write x).sorted ≠ .null := mt sorted_eq_null_iff.mp (written x rfl)
    exact reads_member found (Decode.reads_some solid (reads x rfl))

theorem reads_optionalString {text : Option String}
    (found : latest? name listed = text.map Json.string) :
    (optional name Decode.string).Reads (canonical listed) text :=
  reads_optional Json.string found (fun _ _ => Json.noConfusion) fun s _ => Decode.reads_string s

/-- A list that is left out when it is empty. -/
theorem reads_listMember {read : Json → Decode α} {write : α → Json} {xs : List α}
    (found : latest? name listed = if xs = [] then none else some (.array (xs.map write)))
    (each : ∀ x ∈ xs, Decode.Reads read (write x).sorted x) :
    (orElse name (Decode.list read) []).Reads (canonical listed) xs := by
  split at found
  · rename_i empty
    exact empty ▸ reads_absent found
  · exact reads_member found (Decode.reads_list each)

theorem reads_decode {type : String} {fields : Fields α} (reads : fields.Reads (canonical listed) x) :
    Decode.Reads (fields.decode type) (Json.object listed).sorted x := by
  intro supply
  have result := reads supply
  rw [sorted_object]
  simp only [decode, result]

end Fields
end LakeSchema
