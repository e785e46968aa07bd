import LakeSchema.Proofs.Sql.Arithmetic
import LakeSchema.Schema.Measure

/-!
# What window measures compute

The expression of a window measure holds that of the measure as text. It reads as the window function
of its kind applied to what that text reads as (`expression_reads_iff`), but for the share of the
total: there the text stands before a division as it is, so that only its last summand is divided
(`share_of_sum`).
-/

namespace LakeSchema.Measure

open Sql

/-- The clause of the window of a kind. -/
def clause (m : Measure) : WindowKind → String
  | .movingAverage => m.overClause (m.windowSize.map lastRows)
  | .runningTotal | .cumulativeSum => m.overClause (some runningFrame)
  | .custom => m.overClause m.windowFrame
  | .periodOverPeriod | .rank | .rowNumber | .percentOfTotal => m.overClause none

/-- What a kind of window computes of an operand, over one clause and, if it compares periods, with
those so many before. -/
def template (x : Arithmetic) (offset : Nat) (words : String) : WindowKind → Option Arithmetic
  | .movingAverage => some (.window "AVG" x words)
  | .runningTotal | .cumulativeSum => some (.window "SUM" x words)
  | .periodOverPeriod =>
    let lag := .shifted "LAG" x (.integer offset) words
    some (.operation (.operation (.operation x .subtract lag) .divide lag) .multiply (.integer 100))
  | .percentOfTotal =>
    some (.operation (.operation x .divide (.window "SUM" x words)) .multiply (.integer 100))
  | .rank | .rowNumber | .custom => none

variable {cs ds : List Char} {x y tree : Arithmetic} {words : String} {kind : WindowKind}
  {m : Measure}

theorem expression_eq_windowExpression (windowed : m.isWindow = true) (set : m.window = some kind) :
    m.expression = m.windowExpression kind := by
  rw [expression, windowed, set]

/-! ### The texts -/

def windowText (function : String) (cs : List Char) (words : String) : List Char :=
  function.toList ++ '(' :: (cs ++ ')' :: ' ' :: words.toList)

def lagText (cs : List Char) (offset : Nat) (words : String) : List Char :=
  "LAG".toList ++
    '(' :: (cs ++ ',' :: (' ' :: (toString offset).toList ++ ')' :: ' ' :: words.toList))

/-- A quotient in percent. -/
def percentText (cs ds : List Char) : List Char :=
  cs ++ ' ' :: '/' :: ' ' :: ds ++ ' ' :: '*' :: ' ' :: "100".toList

theorem reads_percent (part : Reads (some words) .product cs x)
    (whole : Reads (some words) .factor ds y) :
    Reads (some words) .product (percentText cs ds)
      (.operation (.operation x .divide y) .multiply (.integer 100)) :=
  .apply .multiply (.apply .divide part whole) (.number 100)

theorem reads_windowText (function : String) (plain : isPlainName function.toList = true)
    (base : Reads (some words) .sum cs x) :
    Reads (some words) .factor (windowText function cs words) (.window function x words) :=
  .window rfl plain base

theorem reads_lagText (base : Reads (some words) .sum cs x) (offset : Nat) :
    Reads (some words) .factor (lagText cs offset words) (.shifted "LAG" x (.integer offset) words) :=
  .shifted rfl (by decide) base (.of_factor (.spaceBefore (by decide) (.number offset)))

theorem toList_movingAverage : (m.windowExpression .movingAverage).toList =
    windowText "AVG" m.expr.toList (m.clause .movingAverage) := by
  simp [windowExpression, windowText, clause]

theorem toList_runningTotal : (m.windowExpression .runningTotal).toList =
    windowText "SUM" m.expr.toList (m.clause .runningTotal) := by
  simp [windowExpression, windowText, clause]

theorem toList_periodOverPeriod : (m.windowExpression .periodOverPeriod).toList =
    let lag := lagText m.expr.toList (m.offsetPeriods.getD 1).toNat (m.clause .periodOverPeriod)
    percentText ('(' :: (m.expr.toList ++ ' ' :: '-' :: ' ' :: lag ++ [')'])) lag := by
  simp [windowExpression, percentText, lagText, clause]

theorem toList_percentOfTotal : (m.windowExpression .percentOfTotal).toList =
    percentText m.expr.toList (windowText "SUM" m.expr.toList (m.clause .percentOfTotal)) := by
  simp [windowExpression, percentText, windowText, clause]

/-! ### What the texts say -/

/-- Over an operand that reads as a product the text of every kind reads as its template. -/
theorem reads_windowExpression (base : Reads none .sum m.expr.toList x)
    (given : template x (m.offsetPeriods.getD 1).toNat (m.clause kind) kind = some tree)
    (whole : kind = .percentOfTotal → Reads none .product m.expr.toList x) :
    Reads (some (m.clause kind)) .sum (m.windowExpression kind).toList tree := by
  have operand : Reads (some (m.clause kind)) .sum m.expr.toList x := base.windowless
  cases kind with
  | movingAverage =>
    cases given
    rw [toList_movingAverage]
    exact .of_factor (reads_windowText "AVG" (by decide) operand)
  | runningTotal | cumulativeSum =>
    cases given
    have text := toList_runningTotal (m := m)
    exact text ▸ .of_factor (reads_windowText "SUM" (by decide) operand)
  | periodOverPeriod =>
    cases given
    have lag := reads_lagText operand (m.offsetPeriods.getD 1).toNat
    rw [toList_periodOverPeriod]
    have growth := Reads.brackets (.apply .subtract operand lag)
    exact .tight (reads_percent (.tight growth) lag)
  | percentOfTotal =>
    cases given
    rw [toList_percentOfTotal]
    have total := reads_windowText "SUM" (by decide) operand
    exact .tight (reads_percent (whole rfl).windowless total)
  | rank | rowNumber | custom => cases given

/-- Of a sum only what stands behind its last operator is divided by the total. -/
theorem share_of_sum {op : Operator} {y z : Arithmetic} (weak : op.level = .sum)
    (base : Reads none .sum m.expr.toList x) (split : m.expr.toList = cs ++ op.mark :: ds)
    (front : Reads none .sum cs y) (back : Reads none .product ds z) :
    Reads (some (m.clause .percentOfTotal)) .sum (m.windowExpression .percentOfTotal).toList
      (.operation y op (.operation (.operation z .divide
        (.window "SUM" x (m.clause .percentOfTotal))) .multiply (.integer 100))) := by
  have operand : Reads (some (m.clause .percentOfTotal)) .sum m.expr.toList x := base.windowless
  have total := reads_windowText "SUM" (by decide) operand
  have text : ∀ whole, percentText m.expr.toList whole = cs ++ op.mark :: percentText ds whole :=
    fun whole => by simp [percentText, split]
  rw [toList_percentOfTotal, text]
  exact .operation weak front.windowless (reads_percent back.windowless total)

/-- The expression of a window measure reads as the template of its kind over what the measure itself
reads as, and as nothing else, unless it is the share of the total of a sum. -/
theorem expression_reads_iff (windowed : m.isWindow = true) (set : m.window = some kind)
    (base : Reads none .sum m.expr.toList x)
    (given : template x (m.offsetPeriods.getD 1).toNat (m.clause kind) kind = some tree) :
    (∀ y, Reads (some (m.clause kind)) .sum m.expression.toList y ↔ y = tree) ↔
      (kind = .percentOfTotal → Reads none .product m.expr.toList x) := by
  rw [expression_eq_windowExpression windowed set]
  constructor
  · rintro only rfl
    cases given
    rcases base.sum_cases with product | ⟨op, cs, ds, y, z, weak, split, rfl, front, back⟩
    · exact product
    · have cut := (only _).mp (share_of_sum weak base split front back)
      obtain ⟨-, rfl, -⟩ := Arithmetic.operation.inj cut
      cases weak
  · intro whole y
    have reads := reads_windowExpression base given whole
    constructor
    · exact fun again => again.unique reads
    · rintro rfl
      exact reads

/-- The growth over three months of what is left of a price. -/
def netGrowth : Measure :=
  { plain "m1" "growth" "price - (cost + 2)" with
    isWindow := true
    window := some .periodOverPeriod
    partitionBy := ["region"]
    orderBy := some "month"
    offsetPeriods := some 3 }

def columnNamed (name : String) : Arithmetic :=
  .column [⟨false, name⟩]

def net : Arithmetic :=
  .operation (columnNamed "price") .subtract (.operation (columnNamed "cost") .add (.integer 2))

theorem netGrowth_reads_iff :
    let words := "OVER (PARTITION BY region ORDER BY month)"
    let lag := .shifted "LAG" net (.integer 3) words
    netGrowth.isWindow = true ∧ netGrowth.window = some .periodOverPeriod ∧
      Reads none .sum netGrowth.expr.toList net ∧
      ∀ y, Reads (some words) .sum netGrowth.expression.toList y ↔
        y = .operation (.operation (.operation net .subtract lag) .divide lag) .multiply
          (.integer 100) := by
  intro words lag
  have named : ∀ name : String, nameParts? .front name.toList = some [⟨false, name⟩] →
      Reads none .sum name.toList (columnNamed name) := fun name read => .of_factor (.column read)
  have price := named "price" (by decide)
  have cost := named "cost" (by decide)
  have costs : Reads none .factor "(cost + 2)".toList _ :=
    .brackets (.apply .add cost (.number 2))
  have base : Reads none .sum netGrowth.expr.toList net := .apply .subtract price costs
  have clause : netGrowth.clause .periodOverPeriod = words := by decide
  refine ⟨rfl, rfl, base, clause ▸ ?_⟩
  exact (expression_reads_iff rfl rfl base rfl).mpr nofun

/-- The share of the total of two columns. -/
def grossShare : Measure :=
  { plain "m1" "share" "net + tax" with
    isWindow := true
    window := some .percentOfTotal }

/-- Only the second column is divided by the total. -/
theorem grossShare_misread :
    let words := grossShare.clause .percentOfTotal
    let gross := .operation (columnNamed "net") .add (columnNamed "tax")
    grossShare.isWindow = true ∧ grossShare.window = some .percentOfTotal ∧
      Reads none .sum grossShare.expr.toList gross ∧
      grossShare.expression = "net + tax / SUM(net + tax) OVER () * 100" ∧
      ∀ tree,
        template gross (grossShare.offsetPeriods.getD 1).toNat words .percentOfTotal = some tree →
          ¬Reads (some words) .sum grossShare.expression.toList tree := by
  intro words gross
  have plain : ∀ name : String, nameParts? .front name.toList = some [⟨false, name⟩] →
      Reads none .factor name.toList (columnNamed name) := fun name read => .column read
  have net : Reads none .sum "net ".toList (columnNamed "net") :=
    .of_factor (.spaceBehind (plain "net" (by decide)) (by decide))
  have tax : Reads none .product " tax".toList (columnNamed "tax") :=
    .of_factor (.spaceBefore (by decide) (plain "tax" (by decide)))
  have weak : Operator.add.level = .sum := rfl
  have base : Reads none .sum grossShare.expr.toList gross := .operation weak net tax
  refine ⟨rfl, rfl, base, by decide, ?_⟩
  rintro tree given reads
  cases given
  have cut := share_of_sum weak base rfl net tax
  have text : grossShare.expression = grossShare.windowExpression .percentOfTotal := rfl
  rw [text] at reads
  cases reads.unique cut

end LakeSchema.Measure
