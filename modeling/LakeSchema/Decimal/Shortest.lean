import LakeSchema.Decimal.Binary64

/-!
# Shortest decimals

The fewest digits that read back as the same double, the nearest such decimal, and its text.
-/

namespace LakeSchema.Binary64

structure Decimal where
  digits : Nat
  power : Int

/-- Four times the value and the two ends of the interval that rounds to it, in units of
`2 ^ (exponent - 2)`. -/
structure Rounding where
  low : Nat
  value : Nat
  high : Nat
  closed : Bool
  unit : Int

def rounding (x : Binary64) : Rounding :=
  let m := x.coefficient
  { low := if m = Nat.pow 2 52 && x.exponent > -1074 then 4 * m - 1 else 4 * m - 2
    value := 4 * m
    high := 4 * m + 2
    closed := m % 2 == 0
    unit := x.exponent - 2 }

/-- Compares a decimal with a multiple of the unit after clearing both denominators. -/
def Rounding.sides (r : Rounding) (d : Decimal) (multiple : Nat) : Nat × Nat :=
  let unit := scaleByTwo multiple 1 r.unit
  let ten : Nat × Nat :=
    if 0 ≤ d.power then (d.digits * Nat.pow 10 d.power.toNat, 1)
    else (d.digits, Nat.pow 10 (-d.power).toNat)
  (ten.1 * unit.2, unit.1 * ten.2)

def Rounding.admits (r : Rounding) (d : Decimal) : Bool :=
  let low := r.sides d r.low
  let high := r.sides d r.high
  if r.closed then low.2 ≤ low.1 && high.1 ≤ high.2 else low.2 < low.1 && high.1 < high.2

/-- The largest multiple of `10 ^ power` that is not above the value. -/
def Rounding.below (r : Rounding) (power : Int) : Decimal :=
  let sides := r.sides ⟨1, power⟩ r.value
  ⟨sides.2 / sides.1, power⟩

/-- Whether the upper of two neighbours on a grid is nearer to the value, a tie going to the even
one. -/
def Rounding.prefersUpper (r : Rounding) (lower : Decimal) : Bool :=
  let twice := r.sides ⟨2 * lower.digits + 1, lower.power⟩ (2 * r.value)
  twice.1 < twice.2 || (twice.1 == twice.2 && lower.digits % 2 == 1)

/-- The admitted neighbour of the value on the grid of `10 ^ power`, the nearer of two. -/
def Rounding.onGrid? (r : Rounding) (power : Int) : Option Decimal :=
  let lower := r.below power
  let upper : Decimal := { lower with digits := lower.digits + 1 }
  match r.admits lower && lower.digits != 0, r.admits upper with
  | true, true => some (if r.prefersUpper lower then upper else lower)
  | true, false => some lower
  | false, true => some upper
  | false, false => none

/-- The first hit on grids that become finer. -/
def Rounding.search (r : Rounding) (power : Int) : Nat → Decimal
  | 0 => r.below power
  | steps + 1 => (r.onGrid? power).getD (r.search (power - 1) steps)

/-- The shortest decimal of a finite double other than zero; the first grid is coarser than the
value and seventeen digits always suffice. -/
def shortest (x : Binary64) : Decimal :=
  let bitLength : Int := x.exponent + (Nat.log2 x.coefficient : Int) + 1
  x.rounding.search (bitLength * 30103 / 100000 + 1) 20

def signText (x : Binary64) : String :=
  if x.isNegative then "-" else ""

def zeros (n : Nat) : String :=
  String.ofList (List.replicate n '0')

/-- Digits with a point in front of the last `places` of them, at least one on either side. -/
def pointed (digits : String) (places : Nat) : String :=
  if digits.length ≤ places then "0." ++ zeros (places - digits.length) ++ digits
  else
    String.ofList (digits.toList.take (digits.length - places)) ++ "." ++
      String.ofList (digits.toList.drop (digits.length - places))

def positionalText (d : Decimal) : String :=
  let digits := toString d.digits
  if 0 ≤ d.power then digits ++ zeros d.power.toNat ++ ".0" else pointed digits (-d.power).toNat

/-- One digit, the others after a point, and the exponent; `plus` stands in front of one that is not
negative. -/
def exponentText (plus : String) (d : Decimal) : String :=
  let digits := toString d.digits
  let exponent := d.power + digits.length - 1
  let shown := if digits.length == 1 then digits else pointed digits (digits.length - 1)
  shown ++ "e" ++ (if exponent < 0 then "" else plus) ++ toString exponent

/-- The text of a double: positional from `1e-5` up to sixteen digits before the point. -/
def text (plus : String) (x : Binary64) : String :=
  if x.isZero then x.signText ++ "0.0"
  else
    let d := x.shortest
    let pointAt : Int := d.power + (toString d.digits).length
    x.signText ++
      if -5 < pointAt && pointAt ≤ 16 then positionalText d else exponentText plus d

end LakeSchema.Binary64
