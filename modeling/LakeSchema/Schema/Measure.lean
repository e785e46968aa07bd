import LakeSchema.Schema.View
import LakeSchema.Text.Words

/-!
# Measures

The expression of a measure: its own text, or the window function that its settings describe around
it.
-/

namespace LakeSchema.Measure

/-- A clause of the window, unless it is blank. -/
def windowClause (words : String) (text : Option String) : List String :=
  (text.filter fun s => !Text.isBlank s).toList.map (words ++ ·)

/-- The window over which a measure is computed, with a frame if one is given. -/
def overClause (m : Measure) (frame : Option String) : String :=
  let partition :=
    if m.partitionBy.isEmpty then [] else ["PARTITION BY " ++ ", ".intercalate m.partitionBy]
  "OVER (" ++
    " ".intercalate (partition ++ windowClause "ORDER BY " m.orderBy ++ windowClause "" frame) ++
    ")"

def runningFrame : String :=
  "ROWS BETWEEN UNBOUNDED PRECEDING AND CURRENT ROW"

def lastRows (size : UInt32) : String :=
  "ROWS BETWEEN " ++ toString (size.toNat - 1) ++ " PRECEDING AND CURRENT ROW"

def windowExpression (m : Measure) : WindowKind → String
  | .movingAverage => "AVG(" ++ m.expr ++ ") " ++ m.overClause (m.windowSize.map lastRows)
  | .runningTotal | .cumulativeSum => "SUM(" ++ m.expr ++ ") " ++ m.overClause (some runningFrame)
  | .periodOverPeriod =>
    let lag := "LAG(" ++ m.expr ++ ", " ++ toString (m.offsetPeriods.getD 1).toNat ++ ") " ++
      m.overClause none
    "(" ++ m.expr ++ " - " ++ lag ++ ") / " ++ lag ++ " * 100"
  | .rank => "RANK() " ++ m.overClause none
  | .rowNumber => "ROW_NUMBER() " ++ m.overClause none
  | .percentOfTotal => m.expr ++ " / SUM(" ++ m.expr ++ ") " ++ m.overClause none ++ " * 100"
  | .custom => m.expr ++ " " ++ m.overClause m.windowFrame

def expression (m : Measure) : String :=
  match m.isWindow, m.window with
  | true, some kind => m.windowExpression kind
  | _, _ => m.expr

/-- The name under which the catalog knows a measure: its name without spaces. -/
def catalogName (name : String) : String :=
  String.ofList (name.toList.filter (· != ' '))

/-! ### References to measures -/

def isQuote (c : Char) : Bool :=
  c == '"' || c == '\x60' || c == '\''

/-- The name inside a reference: without white space and quotes around it and without spaces. -/
def referencedName (inner : List Char) : List Char :=
  let trimmed := Text.trim inner
  ((trimmed.dropWhile isQuote).reverse.dropWhile isQuote).reverse.filter (· != ' ')

/-- The inside of a reference that a text begins with, and the rest. -/
def reference? (cs : List Char) : Option (List Char × List Char) :=
  (Text.after? "MEASURE(".toList cs).bind fun rest =>
    let inner := rest.takeWhile (· != ')')
    match rest.dropWhile (· != ')') with
    | _ :: after => if inner.isEmpty then none else some (inner, after)
    | [] => none

/-- Puts every reference into its one form; every round takes at least one character. -/
def normalisedFrom : (rounds : Nat) → List Char → List Char
  | 0, cs => cs
  | _, [] => []
  | rounds + 1, c :: rest =>
    match reference? (c :: rest) with
    | some (inner, after) =>
      "MEASURE(".toList ++ referencedName inner ++ ')' :: normalisedFrom rounds after
    | none => c :: normalisedFrom rounds rest

/-- The expression with every `MEASURE(…)` naming its measure as the catalog does. -/
def withCatalogNames (expr : String) : String :=
  String.ofList (normalisedFrom expr.length expr.toList)

end LakeSchema.Measure
