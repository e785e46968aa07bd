import LakeSchema.Document.Format
import LakeSchema.Document.Load
import LakeSchema.Schema.Error

/-!
# Repositories

A repository keeps project documents under their names. Documents are normalised when a project is
loaded, so they may be older than the canonical form.
-/

namespace LakeSchema

inductive ServiceError where
  | notFound (what : String)
  | alreadyExists (name : String)
  | failure (text : String)
  | unreadable (error : DecodeError)
  | refused (error : SchemaError)
deriving DecidableEq

structure StoredProject where
  name : String
  format : DocumentFormat
  document : Json
  savedAt : Timestamp
deriving DecidableEq

def StoredProject.toJson (s : StoredProject) : Json :=
  .object
    [("name", .string s.name), ("format", .string s.format.name), ("document", s.document),
      ("saved_at", .time s.savedAt)]

/-- The kept documents, at most one of a name. -/
structure Repository where
  stored : List StoredProject

namespace Repository

def empty : Repository :=
  ⟨[]⟩

def get? (r : Repository) (name : String) : Option StoredProject :=
  r.stored.find? (·.name == name)

/-- Keeps a document in place of an earlier one of its name. -/
def put (r : Repository) (document : StoredProject) : Repository :=
  ⟨document :: r.stored.filter (·.name != document.name)⟩

/-- Saves a document, which replaces another one only when asked to. -/
def saveDocument (r : Repository) (document : StoredProject) (overwrite : Bool) :
    Except ServiceError (StoredProject × Repository) :=
  if !overwrite && (r.get? document.name).isSome then .error (.alreadyExists document.name)
  else .ok (document, r.put document)

/-- Saves a project in canonical form under its own name. -/
def save (r : Repository) (p : Project) (format : DocumentFormat) (overwrite : Bool)
    (now : Timestamp) : Except ServiceError (StoredProject × Repository) :=
  r.saveDocument ⟨p.name, format, p.toJson.sorted, now⟩ overwrite

def loadDocument (r : Repository) (name : String) : Except ServiceError StoredProject :=
  match r.get? name with
  | some document => .ok document
  | none => .error (.notFound ("project '" ++ name ++ "'"))

def load (r : Repository) (name : String) (now : Timestamp) (supply : IdSupply) :
    Except ServiceError (Loaded × IdSupply) := do
  let stored ← r.loadDocument name
  (Document.load now stored.document supply).mapError .unreadable

/-- The names of the kept documents in ascending order. -/
def names (r : Repository) : List String :=
  (r.stored.map (·.name)).mergeSort

end Repository
end LakeSchema
