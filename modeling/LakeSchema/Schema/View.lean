import LakeSchema.Schema.Table

/-!
# Views

Metric views, given by dimensions, measures and joins over a source, and traditional views, given
by a query. `MetricView.tables` lists the project tables that a metric view reads.
-/

namespace LakeSchema

/-- What the rows of a metric view are grouped by. -/
structure Dimension where
  id : String
  name : String
  expr : String
  description : Option String
  dataType : Option String
deriving DecidableEq

/-- An aggregate of a metric view, possibly computed over a window. -/
structure Measure where
  id : String
  name : String
  expr : String
  description : Option String
  aggregation : Option String
  isWindow : Bool
  window : Option WindowKind
  windowSize : Option UInt32
  partitionBy : List String
  orderBy : Option String
  offsetPeriods : Option UInt32
  windowFrame : Option String
deriving DecidableEq

def Measure.plain (id name expr : String) : Measure :=
  { id, name, expr
    description := none
    aggregation := none
    isWindow := false
    window := none
    windowSize := none
    partitionBy := []
    orderBy := none
    offsetPeriods := none
    windowFrame := none }

/-- A join from the source of a metric view, with the joins that start from it. -/
structure ViewJoin where
  id : String
  name : String
  tableId : Option String
  /-- The qualified name of a table outside the project. -/
  tableName : Option String
  condition : Option String
  /-- The columns of both sides that have to agree. -/
  columns : List String
  kind : JoinKind
  joins : List ViewJoin

namespace ViewJoin

mutual

def decEq : (a b : ViewJoin) → Decidable (a = b)
  | ⟨id, name, tableId, tableName, condition, columns, kind, joins⟩,
    ⟨id', name', tableId', tableName', condition', columns', kind', joins'⟩ =>
    match decEqJoins joins joins' with
    | isTrue same =>
      if rest : id = id' ∧ name = name' ∧ tableId = tableId' ∧ tableName = tableName' ∧
          condition = condition' ∧ columns = columns' ∧ kind = kind' then
        isTrue (by simp_all)
      else isFalse (by intro equal; simp_all)
    | isFalse differ => isFalse (by simp [differ])

def decEqJoins : (as bs : List ViewJoin) → Decidable (as = bs)
  | [], [] => isTrue rfl
  | [], _ :: _ | _ :: _, [] => isFalse nofun
  | a :: as, b :: bs =>
    match decEq a b, decEqJoins as bs with
    | isTrue h, isTrue hs => isTrue (by rw [h, hs])
    | isFalse h, _ => isFalse (by simp [h])
    | _, isFalse hs => isFalse (by simp [hs])

end

instance : DecidableEq ViewJoin := decEq

mutual

/-- The project tables of a join and of those nested in it, outermost first. -/
def tables : ViewJoin → List String
  | ⟨_, _, tableId, _, _, _, _, joins⟩ => tableId.toList ++ tablesOf joins

def tablesOf : List ViewJoin → List String
  | [] => []
  | join :: rest => tables join ++ tablesOf rest

end
end ViewJoin

structure MetricView where
  id : String
  name : String
  description : Option String
  version : String
  sourceTable : Option String
  /-- SQL used as the source in place of a table. -/
  sourceSql : Option String
  filter : Option String
  dimensions : List Dimension
  measures : List Measure
  joins : List ViewJoin
  tags : TagMap
  position : Position
  size : Size
  createdAt : Timestamp
  updatedAt : Timestamp
deriving DecidableEq

namespace MetricView

def firstVersion : String :=
  "0.1"

def plain (id name table : String) (now : Timestamp) : MetricView :=
  { id, name
    description := none
    version := firstVersion
    sourceTable := some table
    sourceSql := none
    filter := none
    dimensions := []
    measures := []
    joins := []
    tags := .empty
    position := .initial
    size := .initial
    createdAt := now
    updatedAt := now }

/-- The project tables that the view reads: its source first, then the joined tables, of which only
the first mention counts. -/
def tables (v : MetricView) : List String :=
  (ViewJoin.tablesOf v.joins).foldl (fun seen id => if seen.contains id then seen else seen ++ [id])
    v.sourceTable.toList

end MetricView

structure TraditionalView where
  id : String
  name : String
  query : String
  description : Option String
  logicalName : Option String
  referencedTables : List String
  tags : TagMap
  position : Position
  size : Size
  createdAt : Timestamp
  updatedAt : Timestamp
deriving DecidableEq

def TraditionalView.plain (id name query : String) (now : Timestamp) : TraditionalView :=
  { id, name, query
    description := none
    logicalName := none
    referencedTables := []
    tags := .empty
    position := .initial
    size := .initial
    createdAt := now
    updatedAt := now }

end LakeSchema
