import LakeSchema.Decimal.Binary64
import LakeSchema.Schema.Field
import LakeSchema.Text.Case
import LakeSchema.Time.Timestamp

/-!
# Tables

A table with its fields in column order. Position and size only matter to the canvas on which the
schema is drawn.
-/

namespace LakeSchema

structure Position where
  x : Binary64
  y : Binary64
deriving DecidableEq

def Position.initial : Position :=
  ⟨.ofInt 100, .ofInt 100⟩

structure Size where
  width : Binary64
  height : Binary64
deriving DecidableEq

def Size.initial : Size :=
  ⟨.ofInt 200, .ofInt 150⟩

structure Table where
  id : String
  name : String
  logicalName : Option String
  comment : Option String
  kind : TableKind
  storageFormat : StorageFormat
  /-- Where the files of an external table are. -/
  storageLocation : Option String
  tags : TagMap
  position : Position
  size : Size
  fields : List Field
  createdAt : Timestamp
  updatedAt : Timestamp
deriving DecidableEq

namespace Table

def plain (id name : String) (now : Timestamp) : Table :=
  { id, name
    logicalName := none
    comment := none
    kind := .managed
    storageFormat := .delta
    storageLocation := none
    tags := .empty
    position := .initial
    size := .initial
    fields := []
    createdAt := now
    updatedAt := now }

def field? (t : Table) (id : String) : Option Field :=
  t.fields.find? (·.id == id)

/-- The first field of a name, ignoring the case of ASCII letters. -/
def fieldNamed? (t : Table) (name : String) : Option Field :=
  t.fields.find? fun f => Text.sameIgnoringCase f.name name

def primaryKey (t : Table) : List Field :=
  t.fields.filter (·.isPrimaryKey)

def touch (t : Table) (now : Timestamp) : Table :=
  { t with updatedAt := now }

end Table
end LakeSchema
