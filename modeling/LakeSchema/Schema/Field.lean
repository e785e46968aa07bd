import LakeSchema.Json.Value
import LakeSchema.Schema.DataType
import LakeSchema.Schema.Name
import LakeSchema.Schema.TagMap
import LakeSchema.Schema.Vocabulary

/-!
# Fields

A field is a column of a table: its type with parameters, its description and tags, its part in the
primary key, and the reference it holds when it is a foreign key.
-/

namespace LakeSchema

/-- A member of a struct type; the type is given as SQL text. -/
structure StructMember where
  name : String
  dataType : String
deriving DecidableEq

/-- The parameters of a column type. Objects of no known shape are kept as they are. -/
inductive TypeParameters where
  | decimal (precision scale : UInt32)
  | length (length : UInt32)
  | element (type : String)
  | keyValue (key value : String)
  | struct (members : List StructMember)
  | qualifier (text : String)
  | srid (id : UInt32)
  | other (members : Json.Members)
deriving DecidableEq

/-- A field of some table, by the identifiers of both. -/
structure Location where
  table : String
  field : String
deriving DecidableEq

/-- What a foreign key field refers to, and how its constraint is written. -/
structure Reference where
  table : String
  field : String
  constraintName : Option String
  onDelete : ReferentialAction
  onUpdate : ReferentialAction
deriving DecidableEq

namespace Reference

def ofTarget (target : Location) : Reference :=
  ⟨target.table, target.field, none, .noAction, .noAction⟩

def target (r : Reference) : Location :=
  ⟨r.table, r.field⟩

end Reference

structure Field where
  id : String
  name : String
  dataType : DataType
  typeParameters : Option TypeParameters
  nullable : Bool
  defaultValue : Option String
  comment : Option String
  logicalName : Option String
  tags : TagMap
  isPrimaryKey : Bool
  isForeignKey : Bool
  reference : Option Reference
  origin : Option KeyOrigin
deriving DecidableEq

namespace Field

def plain (id name : String) (dataType : DataType) : Field :=
  { id, name, dataType
    typeParameters := none
    nullable := true
    defaultValue := none
    comment := none
    logicalName := none
    tags := .empty
    isPrimaryKey := false
    isForeignKey := false
    reference := none
    origin := none }

/-- The field as part of the primary key, which is never null. -/
def asPrimaryKey (f : Field) : Field :=
  { f with isPrimaryKey := true, nullable := false }

/-- The field as a foreign key whose origin is not recorded. -/
def referring (f : Field) (target : Location) : Field :=
  { f with isForeignKey := true, reference := some (.ofTarget target) }

def attach (f : Field) (reference : Reference) (origin : KeyOrigin) : Field :=
  { f with isForeignKey := true, reference := some reference, origin := some origin }

def detach (f : Field) : Field :=
  { f with isForeignKey := false, reference := none, origin := none }

def refersTo (f : Field) (target : Location) : Bool :=
  f.reference.any fun r => r.target == target

def refersInto (f : Field) (table : String) : Bool :=
  f.reference.any fun r => r.table == table

end Field
end LakeSchema
