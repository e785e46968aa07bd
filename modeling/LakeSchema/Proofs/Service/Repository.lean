import LakeSchema.Proofs.Document.RoundTrip
import LakeSchema.Service.Repository

/-!
# Histories of a repository

Whatever is saved and loaded, a repository holds under each name the document of the project that was
saved last under it (`document?_afterAll`). Projects that their documents give back are therefore
loaded as they were saved last (`afterAll_remembers`).
-/

namespace LakeSchema

/-- What is asked of a repository, with the time at which it is asked. -/
inductive RepositoryCall where
  | save (p : Project) (format : DocumentFormat) (overwrite : Bool) (now : Timestamp)
  | load (name : String) (now : Timestamp) (supply : IdSupply)

namespace Repository

variable {r : Repository} {p : Project} {format : DocumentFormat} {overwrite : Bool}
  {now : Timestamp} {name : String} {error : ServiceError}

/-- The repository after a call. Only a save that succeeds changes it. -/
def after (r : Repository) : RepositoryCall → Repository
  | .save p format overwrite now =>
    match r.save p format overwrite now with
    | .ok (_, next) => next
    | .error _ => r
  | .load .. => r

def afterAll (r : Repository) (calls : List RepositoryCall) : Repository :=
  calls.foldl after r

/-- The project that a call saves, if it is a save that succeeds. -/
def saves? (r : Repository) : RepositoryCall → Option Project
  | .save p format overwrite now =>
    match r.save p format overwrite now with
    | .ok _ => some p
    | .error _ => none
  | .load .. => none

/-- The projects that calls save, the last one first. -/
def savedBy (r : Repository) : List RepositoryCall → List Project
  | [] => []
  | call :: rest => (r.after call).savedBy rest ++ (r.saves? call).toList

def document? (r : Repository) (name : String) : Option Json :=
  (r.get? name).map (·.document)

/-! ### One call -/

theorem get?_put (r : Repository) (document : StoredProject) (name : String) :
    (r.put document).get? name = if document.name = name then some document else r.get? name := by
  by_cases here : document.name = name
  · rw [get?, put, List.find?_cons_of_pos (by simpa using here), if_pos here]
  · rw [get?, put, List.find?_cons_of_neg (by simpa using here), if_neg here, List.find?_filter, get?]
    congr 1
    funext other
    by_cases named : other.name = name
    · simp [named, Ne.symm here]
    · simp [named]

theorem mem_names_iff : name ∈ r.names ↔ (r.get? name).isSome := by
  simp [names, get?]

theorem save_eq_ok_iff {stored : StoredProject} {next : Repository} :
    r.save p format overwrite now = .ok (stored, next) ↔
      (overwrite = false → p.name ∉ r.names) ∧ stored = ⟨p.name, format, p.toJson.sorted, now⟩ ∧
        next = r.put stored := by
  rw [mem_names_iff, save, saveDocument]
  cases overwrite <;> cases (r.get? p.name).isSome <;> simp <;> grind

/-- A save fails exactly if it would replace a document without being asked to. -/
theorem save_eq_error_iff :
    r.save p format overwrite now = .error error ↔
      overwrite = false ∧ p.name ∈ r.names ∧ error = .alreadyExists p.name := by
  rw [mem_names_iff, save, saveDocument]
  cases overwrite <;> cases (r.get? p.name).isSome <;> simp [eq_comm]

theorem after_of_error (failed : r.save p format overwrite now = .error error) :
    r.after (.save p format overwrite now) = r := by
  rw [after, failed]

/-- A call leaves under a name what it saves under the name, or what was there. -/
theorem document?_after (call : RepositoryCall) :
    (r.after call).document? name =
      (((r.saves? call).toList.find? (·.name == name)).map (·.toJson.sorted)).or
        (r.document? name) := by
  cases call with
  | load other now supply => rfl
  | save p format overwrite now =>
    cases saved : r.save p format overwrite now with
    | error error =>
      rw [after_of_error saved, saves?, saved]
      rfl
    | ok result =>
      obtain ⟨stored, next⟩ := result
      obtain ⟨_, rfl, rfl⟩ := save_eq_ok_iff.mp saved
      rw [after, saves?, saved, document?, get?_put, document?]
      by_cases here : p.name = name <;> simp [here]

/-! ### All calls -/

/-- Under each name is the document of the project that was saved last. -/
theorem document?_afterAll (calls : List RepositoryCall) (r : Repository) (name : String) :
    (r.afterAll calls).document? name =
      (((r.savedBy calls).find? (·.name == name)).map (·.toJson.sorted)).or (r.document? name) := by
  induction calls generalizing r with
  | nil => rfl
  | cons call rest ih =>
    change ((r.after call).afterAll rest).document? name = _
    rw [ih, document?_after, savedBy, List.find?_append, Option.map_or, Option.or_assoc]

theorem document?_afterAll_empty (calls : List RepositoryCall) (name : String) :
    (empty.afterAll calls).document? name =
      ((empty.savedBy calls).find? (·.name == name)).map (·.toJson.sorted) := by
  rw [document?_afterAll]
  exact Option.or_none

theorem load_eq (r : Repository) (name : String) (now : Timestamp) (supply : IdSupply) :
    r.load name now supply =
      match r.document? name with
      | some document => (Document.load now document supply).mapError .unreadable
      | none => .error (.notFound ("project '" ++ name ++ "'")) := by
  rw [load, loadDocument, document?]
  cases r.get? name <;> rfl

/-- What a repository answers when the given projects were saved in it, the last one first: a project
is loaded as it was saved last, and no document is replaced by a save that may not. -/
structure Remembers (r : Repository) (saved : List Project) : Prop where
  missing : ∀ name now supply,
    r.load name now supply = .error (.notFound ("project '" ++ name ++ "'")) ↔
      ∀ p ∈ saved, p.name ≠ name
  last : ∀ name now supply p, saved.find? (·.name == name) = some p →
    r.load name now supply = .ok (⟨p, [], [], []⟩, supply)
  kept : ∀ name, name ∈ r.names ↔ ∃ p ∈ saved, p.name = name
  refused : ∀ p format overwrite now error, r.save p format overwrite now = .error error ↔
    overwrite = false ∧ p.name ∈ r.names ∧ error = .alreadyExists p.name

theorem remembers_of_document? {saved : List Project}
    (held : ∀ name, r.document? name = (saved.find? (·.name == name)).map (·.toJson.sorted))
    (restorable : ∀ p ∈ saved, p.inconsistencies = [] ∧ p.Storable) : r.Remembers saved := by
  have last : ∀ name now supply p, saved.find? (·.name == name) = some p →
      r.load name now supply = .ok (⟨p, [], [], []⟩, supply) := by
    intro name now supply p found
    obtain ⟨consistent, storable⟩ := restorable p (List.mem_of_find?_eq_some found)
    rw [load_eq, held, found]
    simp only [Option.map_some, Document.load_saved consistent storable now supply, Except.mapError]
  refine ⟨fun name now supply => ?_, last, fun name => ?_, fun _ _ _ _ _ => save_eq_error_iff⟩
  · have absent : (∀ p ∈ saved, p.name ≠ name) ↔ saved.find? (·.name == name) = none := by simp
    rw [absent]
    cases found : saved.find? (·.name == name) with
    | none =>
      rw [load_eq, held, found]
      exact iff_of_true rfl rfl
    | some p =>
      rw [last name now supply p found]
      exact iff_of_false nofun nofun
  · have same : (r.get? name).isSome = (r.document? name).isSome := Option.isSome_map.symm
    rw [mem_names_iff, same, held, Option.isSome_map, find?_isSome_iff_mem]

/-- From the empty repository, after every history of saves and loads whose saved projects can be
restored, loading gives what was saved last. A save that fails changes nothing that is loaded later. -/
theorem afterAll_remembers (calls : List RepositoryCall)
    (restorable : ∀ p ∈ empty.savedBy calls, p.inconsistencies = [] ∧ p.Storable) :
    (empty.afterAll calls).Remembers (empty.savedBy calls) ∧
      ∀ p format overwrite now error later,
        (empty.afterAll calls).save p format overwrite now = .error error →
        empty.afterAll (calls ++ .save p format overwrite now :: later) =
          empty.afterAll (calls ++ later) := by
  refine ⟨remembers_of_document? (document?_afterAll_empty calls) restorable, ?_⟩
  intro p format overwrite now error later failed
  rw [afterAll, List.foldl_append, List.foldl_cons, afterAll, List.foldl_append]
  exact congrArg (later.foldl after ·) (after_of_error failed)

/-- The shop is saved, a second shop of its name is not, and the shop is loaded. -/
theorem webShop_remembered :
    let calls : List RepositoryCall :=
      [.save Document.webShop .json false Project.newYear,
        .save { Document.webShop with description := some "second" } .yaml false Project.newYear]
    (∀ p ∈ empty.savedBy calls, p.inconsistencies = [] ∧ p.Storable) ∧
      (empty.afterAll calls).load "web shop" Project.newYear ⟨7⟩ =
        .ok (⟨Document.webShop, [], [], []⟩, ⟨7⟩) ∧
      (empty.afterAll calls).load "shop" Project.newYear ⟨7⟩ =
        .error (.notFound "project 'shop'") := by
  intro calls
  have saved : empty.savedBy calls = [Document.webShop] := rfl
  have restorable : ∀ p ∈ empty.savedBy calls, p.inconsistencies = [] ∧ p.Storable := by
    intro p member
    obtain rfl := List.mem_singleton.mp (saved ▸ member)
    exact ⟨by decide, Document.webShop_storable⟩
  obtain ⟨remembers, _⟩ := afterAll_remembers calls restorable
  exact ⟨restorable, remembers.last _ _ _ _ rfl, (remembers.missing "shop" _ _).mpr (by decide)⟩

end Repository
end LakeSchema
