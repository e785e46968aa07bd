import LakeSchema.Text.Case
import LakeSchema.Text.Words

/-!
# Data types

The SQL column types, their keywords and the spellings that documents may use for them.
-/

namespace LakeSchema

inductive DataType where
  | bigint
  | int
  | smallint
  | tinyint
  | float
  | double
  | decimal
  | string
  | varchar
  | char
  | date
  | timestamp
  | timestampNtz
  | interval
  | boolean
  | binary
  | geography
  | geometry
  | variant
  | object
  | array
  | map
  | struct
deriving DecidableEq

namespace DataType

def keyword : DataType → String
  | bigint => "BIGINT"
  | int => "INT"
  | smallint => "SMALLINT"
  | tinyint => "TINYINT"
  | float => "FLOAT"
  | double => "DOUBLE"
  | decimal => "DECIMAL"
  | string => "STRING"
  | varchar => "VARCHAR"
  | char => "CHAR"
  | date => "DATE"
  | timestamp => "TIMESTAMP"
  | timestampNtz => "TIMESTAMP_NTZ"
  | interval => "INTERVAL"
  | boolean => "BOOLEAN"
  | binary => "BINARY"
  | geography => "GEOGRAPHY"
  | geometry => "GEOMETRY"
  | variant => "VARIANT"
  | object => "OBJECT"
  | array => "ARRAY"
  | map => "MAP"
  | struct => "STRUCT"

def spellings : List (DataType × List String) :=
  [ (bigint, ["BIGINT", "LONG"]), (int, ["INT", "INTEGER"]), (smallint, ["SHORT", "SMALLINT"]),
    (tinyint, ["BYTE", "TINYINT"]), (float, ["FLOAT", "REAL"]), (double, ["DOUBLE"]),
    (decimal, ["DEC", "DECIMAL", "NUMERIC"]), (string, ["STRING"]), (varchar, ["VARCHAR"]),
    (char, ["CHAR"]), (date, ["DATE"]), (timestamp, ["TIMESTAMP"]),
    (timestampNtz, ["TIMESTAMP_NTZ"]), (interval, ["INTERVAL"]), (boolean, ["BOOLEAN"]),
    (binary, ["BINARY"]), (geography, ["GEOGRAPHY"]), (geometry, ["GEOMETRY"]),
    (variant, ["VARIANT"]), (object, ["OBJECT"]), (array, ["ARRAY"]), (map, ["MAP"]),
    (struct, ["STRUCT"]) ]

/-- The type of a spelling in any case, with white space around it. -/
def read (text : String) : Except String DataType :=
  let name := Text.uppered (Text.trimmed text)
  match spellings.find? fun entry => entry.2.contains name with
  | some entry => .ok entry.1
  | none => .error ("Unsupported data type: " ++ text)

/-- Types whose only parameter is a length in characters. -/
def takesLength : DataType → Bool
  | varchar | char => true
  | _ => false

end DataType
end LakeSchema
