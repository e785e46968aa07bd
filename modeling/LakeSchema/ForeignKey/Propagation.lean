import LakeSchema.ForeignKey.Origin

/-!
# Keeping foreign keys in line

When a key changes shape, every field that refers to it takes its type, nullability and comment, a
missing logical name, and the tags that it does not set itself; linked fields also take the name.
-/

namespace LakeSchema

namespace Field

/-- Whether the difference between two states of a key concerns its foreign keys. -/
def shapeChanged (prior next : Field) : Bool :=
  prior.name != next.name || prior.dataType != next.dataType ||
    prior.typeParameters != next.typeParameters || prior.nullable != next.nullable ||
    prior.comment != next.comment || prior.tags != next.tags

/-- The field with the shape of a key. Its own logical name and tags stay. -/
def adopt (f key : Field) : Field :=
  { f with
    dataType := key.dataType
    typeParameters := key.typeParameters
    nullable := key.nullable
    comment := key.comment
    logicalName := f.logicalName.or key.logicalName
    tags := key.tags.merge f.tags }

/-- The field after a key to which it refers changed from `prior` to `next`. -/
def follow (f : Field) (policy : OriginPolicy) (prior next : Field) : Field :=
  match f.originUnder policy (some prior.name) with
  | .linked => { f.adopt next with name := next.name }
  | .independent => f.adopt next

end Field

structure SyncedField where
  table : String
  field : String
  origin : KeyOrigin
  renamed : Bool
deriving DecidableEq

structure KeyChange where
  table : String
  prior : Field
  next : Field
deriving DecidableEq

namespace KeyChange

def key (change : KeyChange) : Location :=
  ⟨change.table, change.next.id⟩

/-- Whether a field of a table has to follow the change; the key itself does not. -/
def concerns (change : KeyChange) (t : Table) (f : Field) : Bool :=
  ⟨t.id, f.id⟩ != change.key && f.refersTo change.key

def syncedTable (change : KeyChange) (policy : OriginPolicy) (now : Timestamp) (t : Table) :
    Table :=
  if t.fields.any (change.concerns t) then
    { t with
      fields := t.fields.map fun f =>
        if change.concerns t f then f.follow policy change.prior change.next else f
      updatedAt := now }
  else t

def syncedField (change : KeyChange) (policy : OriginPolicy) (t : Table) (f : Field) :
    SyncedField :=
  let origin := f.originUnder policy (some change.prior.name)
  ⟨t.id, f.id, origin, origin == .linked && f.name != change.next.name⟩

/-- The foreign keys that follow the change, in project order. -/
def syncedFields (change : KeyChange) (policy : OriginPolicy) (p : Project) : List SyncedField :=
  p.tables.flatMap fun t =>
    (t.fields.filter (change.concerns t)).map (change.syncedField policy t)

end KeyChange

namespace Project

/-- Brings all foreign keys in line with a key that the project already holds in its new state. -/
def propagate (p : Project) (policy : OriginPolicy) (change : KeyChange) (now : Timestamp) :
    List SyncedField × Project :=
  if change.prior.shapeChanged change.next then
    (change.syncedFields policy p,
      { p with tables := p.tables.map (change.syncedTable policy now) })
  else ([], p)

end Project
end LakeSchema
