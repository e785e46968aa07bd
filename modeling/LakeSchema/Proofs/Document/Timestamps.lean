import LakeSchema.Proofs.Document.Decode
import LakeSchema.Proofs.Document.Entries
import LakeSchema.Proofs.Time.SignedYear

/-!
# Timestamps in normalised documents

Normalising writes a timestamp at every place of a document that has one (`timeAt?_normalise`). When the
document is normalised once more, the timestamp stays if its year has four digits, and gives way to the
time of the clock otherwise (`timeAt?_renormalise`).
-/

namespace LakeSchema

instance (t : Timestamp) : Decidable t.Plain :=
  inferInstanceAs (Decidable (0 ≤ t.date.year ∧ t.date.year ≤ 9999))

theorem Timestamp.read?_text_eq (t : Timestamp) :
    Timestamp.read? t.text = if t.Plain then some t else none := by
  split
  · rename_i plain
    exact Timestamp.read?_text plain
  · rename_i signed
    exact Timestamp.read?_text_of_signed signed

namespace Document

open Json (Members)

variable {now later t : Timestamp} {members entry : Members} {supply supply' : IdSupply}
  {label name text : String} {document : Json}

/-! ### Places -/

/-- Where a document has timestamps: in its root, and in the entries of its lists. -/
inductive Place where
  | root
  | entry (list : String) (i : Nat) (dated : list ∈ timestamped)

def Place.members? : Place → Json → Option Members
  | .root, document => document.asObject?
  | .entry list i _, document => document.asObject?.bind (listed? list i)

@[simp] theorem members?_root (members : Members) : Place.root.members? (.object members) = some members :=
  rfl

@[simp] theorem members?_entry (list : String) (i : Nat) (dated : list ∈ timestamped) (members : Members) :
    (Place.entry list i dated).members? (.object members) = listed? list i members :=
  rfl

/-- The value of a timestamp of a document. -/
def timeAt? (place : Place) (name : String) (document : Json) : Option Json :=
  (place.members? document).bind (Members.get? name)

/-! ### One entry -/

/-- The time that a value stands for: that of its text, or else that of the clock. -/
def timeOf (now : Timestamp) (value : Option Json) : Timestamp :=
  ((value.bind Json.asString?).bind Timestamp.read?).getD now

theorem timeOf_text (read : Timestamp.read? text = some t) : timeOf now (some (.string text)) = t := by
  rw [timeOf, Option.bind_some, Json.asString?, Option.bind_some, read, Option.getD_some]

theorem timeOf_time (later t : Timestamp) :
    timeOf later (some (.time t)) = if t.Plain then t else later := by
  rw [timeOf, Option.bind_some, Json.time, Json.asString?, Option.bind_some, Timestamp.read?_text_eq]
  split <;> rfl

theorem get?_timestamp_self : (timestamp now label name members).1.get? name =
    some (.time (timeOf now (members.get? name))) := by
  unfold timestamp timeOf
  split
  · rename_i text given
    rw [given, Option.bind_some, Json.asString?, Option.bind_some]
    cases Timestamp.read? text <;> exact (Members.get?_put _ _ _ _).trans (if_pos rfl)
  · rename_i other
    have silent : (members.get? name).bind Json.asString? = none := by
      refine Option.bind_eq_none_iff.mpr fun value given => ?_
      cases value with
      | string text => exact absurd given (other text)
      | _ => rfl
    rw [silent]
    exact (Members.get?_put _ _ _ _).trans (if_pos rfl)

theorem get?_timestamps_date (date : name ∈ dates) : (timestamps now label members).1.get? name =
    some (.time (timeOf now (members.get? name))) := by
  simp only [dates, List.mem_cons, List.not_mem_nil, or_false] at date
  unfold timestamps
  rcases date with rfl | rfl
  · rw [get?_timestamp (by decide), get?_timestamp_self]
  · rw [get?_timestamp_self, get?_timestamp (by decide)]

/-! ### Documents -/

/-- Each place is still there once a document is normalised, and has all its timestamps. -/
theorem exists_normalised_at (now : Timestamp) (supply : IdSupply) {place : Place}
    (given : place.members? document = some entry) :
    ∃ after, place.members? (normalise now document supply).1 = some after ∧
      ∀ name ∈ dates, after.get? name = some (.time (timeOf now (entry.get? name))) := by
  cases document with
  | object members =>
    obtain ⟨rest, done⟩ := normalise_object now members supply
    rw [done]
    cases place with
    | root =>
      rw [members?_root, Option.some_inj] at given
      refine ⟨_, members?_root _, fun name date => ?_⟩
      rw [get?_normalised date, get?_timestamps_date date, given]
    | entry list i dated =>
      rw [members?_entry] at given
      obtain ⟨middle, prepared, same⟩ := exists_prepared dated given
      refine ⟨(entryTimestamps now middle).1, ?_, fun name date => ?_⟩
      · rw [members?_entry, listed?_normalised dated, prepared, Option.map_some]
      · rw [entryTimestamps, get?_timestamps_date date, same name date]
  | _ => cases place <;> cases given

theorem timeAt?_normalise {place : Place} (given : place.members? document = some entry)
    (date : name ∈ dates) : timeAt? place name (normalise now document supply).1 =
      some (.time (timeOf now (entry.get? name))) := by
  obtain ⟨after, found, times⟩ := exists_normalised_at now supply given
  rw [timeAt?, found, Option.bind_some, times name date]

theorem timeAt?_renormalise {place : Place} (given : place.members? document = some entry)
    (date : name ∈ dates) :
    timeAt? place name (normalise later (normalise now document supply).1 supply').1 =
      some (.time (if (timeOf now (entry.get? name)).Plain then timeOf now (entry.get? name) else later)) := by
  obtain ⟨after, found, times⟩ := exists_normalised_at now supply given
  rw [timeAt?_normalise found date, times name date, timeOf_time]

/-- What a text of any form denotes is read back from its canonical text exactly if the year has four
digits. A document that gives such a text has the timestamp once it is normalised. When it is normalised
again, it keeps the timestamp with such a year and gets the time of the clock with any other. -/
theorem timestamp_survives_iff (read : Timestamp.read? text = some t) :
    (Timestamp.read? t.text = some t ↔ t.Plain) ∧ (¬t.Plain → Timestamp.read? t.text = none) ∧
    ∀ now later document supply supply' place, ∀ name ∈ dates,
      timeAt? place name document = some (.string text) →
      timeAt? place name (normalise now document supply).1 = some (.time t) ∧
      timeAt? place name (normalise later (normalise now document supply).1 supply').1 =
        some (.time (if t.Plain then t else later)) := by
  refine ⟨Timestamp.read?_text_iff, Timestamp.read?_text_of_signed, ?_⟩
  intro now later document supply supply' place name date given
  obtain ⟨entry, found, value⟩ := Option.bind_eq_some_iff.mp given
  have time : timeOf now (entry.get? name) = t := by rw [value, timeOf_text read]
  exact ⟨by rw [timeAt?_normalise found date, time], by rw [timeAt?_renormalise found date, time]⟩

/-- A leap second in the last year with four digits. -/
def lastMoment : Timestamp :=
  .ofClock ⟨9999, 12, 31, by decide, by decide, by decide⟩ 18 29 60 500000000

def lastDocument : Json :=
  .object [("created_at", .string "9999-12-31 23:59:60.5+05:30")]

theorem lastDocument_survives : Timestamp.read? "9999-12-31 23:59:60.5+05:30" = some lastMoment ∧
    Timestamp.read? lastMoment.text = some lastMoment ∧
    timeAt? .root "created_at" (normalise Project.newYear
      (normalise Project.newYear lastDocument ⟨0⟩).1 ⟨0⟩).1 = some (.time lastMoment) := by
  have read : Timestamp.read? "9999-12-31 23:59:60.5+05:30" = some lastMoment := by decide +kernel
  obtain ⟨back, -, kept⟩ := timestamp_survives_iff read
  have plain : lastMoment.Plain := by decide
  have twice := (kept Project.newYear Project.newYear lastDocument ⟨0⟩ ⟨0⟩ .root "created_at"
    List.mem_cons_self rfl).2
  rw [if_pos plain] at twice
  exact ⟨read, back.mpr plain, twice⟩

def distantDay : Timestamp :=
  .ofClock ⟨12024, 12, 31, by decide, by decide, by decide⟩ 0 0 0 0

/-- The day is read where it stands alone, but not where the canonical text has it. -/
theorem distantDay_lost : Timestamp.read? "+12024-12-31" = some distantDay ∧
    distantDay.text = "+12024-12-31T00:00:00Z" ∧
    Timestamp.read? "+12024-12-31T00:00:00Z" = none := by
  decide +kernel

end Document
end LakeSchema
