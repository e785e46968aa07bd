/-!
# Small vocabularies

The fixed choices of a schema besides its data types: how a table is stored, how tables are related
and what happens to dependent rows, how views join and which windows their measures use. Each has
its spellings in documents, the name that is written first or apart.
-/

namespace LakeSchema

/-- Whether the catalog owns the storage of a table. -/
inductive TableKind where
  | managed
  | external
deriving DecidableEq

namespace TableKind

def name : TableKind → String
  | managed => "MANAGED"
  | external => "EXTERNAL"

def spellings : List (TableKind × List String) :=
  [(managed, ["MANAGED"]), (external, ["EXTERNAL"])]

end TableKind

inductive StorageFormat where
  | delta
  | parquet
  | csv
  | json
  | avro
  | orc
  | text
deriving DecidableEq

namespace StorageFormat

def name : StorageFormat → String
  | delta => "DELTA"
  | parquet => "PARQUET"
  | csv => "CSV"
  | json => "JSON"
  | avro => "AVRO"
  | orc => "ORC"
  | text => "TEXT"

def spellings : List (StorageFormat × List String) :=
  [ (delta, ["DELTA"]), (parquet, ["PARQUET"]), (csv, ["CSV"]), (json, ["JSON"]),
    (avro, ["AVRO"]), (orc, ["ORC"]), (text, ["TEXT"]) ]

end StorageFormat

/-- How many rows of two tables belong together. -/
inductive Cardinality where
  | oneToOne
  | oneToMany
  | manyToOne
  | manyToMany
deriving DecidableEq

namespace Cardinality

def name : Cardinality → String
  | oneToOne => "one_to_one"
  | oneToMany => "one_to_many"
  | manyToOne => "many_to_one"
  | manyToMany => "many_to_many"

def spellings : List (Cardinality × List String) :=
  [ (oneToOne, ["one_to_one"]), (oneToMany, ["one_to_many"]), (manyToOne, ["many_to_one"]),
    (manyToMany, ["many_to_many"]) ]

end Cardinality

/-- What a constraint does to dependent rows. -/
inductive ReferentialAction where
  | noAction
  | cascade
  | setNull
  | setDefault
  | restrict
deriving DecidableEq

namespace ReferentialAction

def name : ReferentialAction → String
  | noAction => "NO ACTION"
  | cascade => "CASCADE"
  | setNull => "SET NULL"
  | setDefault => "SET DEFAULT"
  | restrict => "RESTRICT"

def spellings : List (ReferentialAction × List String) :=
  [ (noAction, ["NO ACTION", "NO_ACTION"]), (cascade, ["CASCADE"]),
    (setNull, ["SET NULL", "SET_NULL"]), (setDefault, ["SET DEFAULT", "SET_DEFAULT"]),
    (restrict, ["RESTRICT"]) ]

end ReferentialAction

/-- How a foreign key field came to be: a linked one was made for its key and follows its name, an
independent one keeps a name of its own. -/
inductive KeyOrigin where
  | linked
  | independent
deriving DecidableEq

namespace KeyOrigin

def name : KeyOrigin → String
  | linked => "linked"
  | independent => "independent"

def spellings : List (KeyOrigin × List String) :=
  [(linked, ["linked"]), (independent, ["independent"])]

end KeyOrigin

inductive JoinKind where
  | left
  | inner
  | right
  | full
  | cross
deriving DecidableEq

namespace JoinKind

def name : JoinKind → String
  | left => "LEFT"
  | inner => "INNER"
  | right => "RIGHT"
  | full => "FULL"
  | cross => "CROSS"

def lowerName : JoinKind → String
  | left => "left"
  | inner => "inner"
  | right => "right"
  | full => "full"
  | cross => "cross"

def spellings : List (JoinKind × List String) :=
  [ (left, ["LEFT"]), (inner, ["INNER"]), (right, ["RIGHT"]), (full, ["FULL"]),
    (cross, ["CROSS"]) ]

end JoinKind

inductive WindowKind where
  | movingAverage
  | runningTotal
  | periodOverPeriod
  | rank
  | rowNumber
  | percentOfTotal
  | cumulativeSum
  | custom
deriving DecidableEq

namespace WindowKind

def name : WindowKind → String
  | movingAverage => "moving_average"
  | runningTotal => "running_total"
  | periodOverPeriod => "period_over_period"
  | rank => "rank"
  | rowNumber => "row_number"
  | percentOfTotal => "percent_of_total"
  | cumulativeSum => "cumulative_sum"
  | custom => "custom"

def spellings : List (WindowKind × List String) :=
  [ (movingAverage, ["moving_average"]), (runningTotal, ["running_total"]),
    (periodOverPeriod, ["period_over_period"]), (rank, ["rank"]), (rowNumber, ["row_number"]),
    (percentOfTotal, ["percent_of_total"]), (cumulativeSum, ["cumulative_sum"]),
    (custom, ["custom"]) ]

end WindowKind
end LakeSchema
