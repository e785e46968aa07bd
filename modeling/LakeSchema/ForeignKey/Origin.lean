import LakeSchema.Schema.Project

/-!
# Origins of foreign keys

A linked foreign key follows its key, an independent one does not. The policy says how the two are
told apart: by the origin recorded on the field, or by comparing names.
-/

namespace LakeSchema

inductive OriginPolicy where
  /-- A recorded origin counts; fields without one are compared by name. -/
  | explicit
  /-- Names are compared whatever is recorded. -/
  | nameMatch
deriving DecidableEq

namespace OriginPolicy

def name : OriginPolicy → String
  | explicit => "explicit"
  | nameMatch => "name_match"

def spellings : List (OriginPolicy × List String) :=
  [(explicit, ["explicit"]), (nameMatch, ["name_match"])]

def read (text : String) : Except String OriginPolicy :=
  let name := String.ofList ((Text.lower text.toList).map fun c => if c == '-' then '_' else c)
  if name == "explicit" then .ok .explicit
  else if name == "name_match" || name == "name" then .ok .nameMatch
  else .error ("Unknown origin policy: " ++ text ++ ". Use 'explicit' or 'name_match'.")

end OriginPolicy

namespace Field

/-- The origin that the names of a foreign key and its key imply. A missing key implies an
independent foreign key. -/
def originByName (f : Field) (key : Option String) : KeyOrigin :=
  if key = some f.name then .linked else .independent

def originUnder (f : Field) (policy : OriginPolicy) (key : Option String) : KeyOrigin :=
  match policy, f.origin with
  | .explicit, some origin => origin
  | _, _ => f.originByName key

end Field

namespace Project

/-- Whether a key of some name is at a location. -/
def hasKeyNamed (p : Project) (location : Location) (name : String) : Bool :=
  p.tables.any fun t =>
    t.id == location.table && t.fields.any fun key => key.id == location.field && key.name == name

/-- The field with its origin recorded, if it is a foreign key without one. -/
def recordOrigin (p : Project) (f : Field) : Field :=
  match f.origin, f.reference with
  | none, some reference =>
    { f with
      origin := some (if p.hasKeyNamed reference.target f.name then .linked else .independent) }
  | _, _ => f

/-- Records the origin that the present names imply on every foreign key that has none. -/
def recordOrigins (p : Project) : Project :=
  { p with tables := p.tables.map fun t => { t with fields := t.fields.map p.recordOrigin } }

end Project
end LakeSchema
