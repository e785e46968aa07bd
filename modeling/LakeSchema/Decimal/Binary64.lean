/-!
# Double precision numbers

A double is its 64 bits. `ofRatio?` rounds a fraction to the nearest double, a half to the even
neighbour; reading decimals and scaling by powers of ten go through it, so every operation here is
one exact computation followed by one rounding.
-/

namespace LakeSchema

structure Binary64 where
  bits : UInt64
deriving DecidableEq

namespace Binary64

def isNegative (x : Binary64) : Bool :=
  x.bits >>> 63 == 1

def magnitudeBits (x : Binary64) : Nat :=
  (x.bits &&& 0x7FFFFFFFFFFFFFFF).toNat

/-- The coefficient of `coefficient · 2 ^ exponent`, the absolute value of a finite double. -/
def coefficient (x : Binary64) : Nat :=
  let fraction := x.magnitudeBits % Nat.pow 2 52
  if x.magnitudeBits / Nat.pow 2 52 = 0 then fraction else Nat.pow 2 52 + fraction

def exponent (x : Binary64) : Int :=
  let field : Nat := x.magnitudeBits / Nat.pow 2 52
  if field = 0 then -1074 else (field : Int) - 1075

def ofSignAndMagnitude (negative : Bool) (magnitude : Nat) : Binary64 :=
  ⟨(if negative then 0x8000000000000000 else 0) ||| UInt64.ofNat magnitude⟩

def zero (negative : Bool) : Binary64 :=
  ofSignAndMagnitude negative 0

/-- The first magnitude that is no longer finite. -/
def infinityBits : Nat :=
  0x7FF0000000000000

def infinity (negative : Bool) : Binary64 :=
  ofSignAndMagnitude negative infinityBits

def isFinite (x : Binary64) : Bool :=
  x.magnitudeBits < infinityBits

def isZero (x : Binary64) : Bool :=
  x.magnitudeBits == 0

def scaleByTwo (num den : Nat) (power : Int) : Nat × Nat :=
  if 0 ≤ power then (num * Nat.pow 2 power.toNat, den) else (num, den * Nat.pow 2 (-power).toNat)

/-- The power of two in front of a 53 bit coefficient for `num / den`, not below the smallest. -/
def leadingExponent (num den : Nat) : Int :=
  let guess : Int := (Nat.log2 num : Int) - (Nat.log2 den : Int) - 52
  let scaled := scaleByTwo num den (-guess)
  max (-1074) (if scaled.1 / scaled.2 < Nat.pow 2 52 then guess - 1 else guess)

/-- The quotient rounded to the nearest whole number, a half to the even one. -/
def roundedQuotient (num den : Nat) : Nat :=
  let quotient := num / den
  let rest := 2 * (num % den)
  if rest > den || (rest == den && quotient % 2 == 1) then quotient + 1 else quotient

/-- The nearest double to `num / den`; nothing when it would be infinite. -/
def ofRatio? (negative : Bool) (num den : Nat) : Option Binary64 :=
  if num = 0 then some (zero negative)
  else
    let exponent := leadingExponent num den
    let scaled := scaleByTwo num den (-exponent)
    let rounded := roundedQuotient scaled.1 scaled.2
    let magnitude := ((exponent + 1074).toNat) * Nat.pow 2 52 + rounded
    if magnitude < infinityBits then some (ofSignAndMagnitude negative magnitude) else none

/-- The nearest double to a whole number of absolute value below `2 ^ 1023`. -/
def ofNat (negative : Bool) (n : Nat) : Binary64 :=
  (ofRatio? negative n 1).getD (infinity negative)

def ofInt (n : Int) : Binary64 :=
  ofNat (n < 0) n.natAbs

def ratio (x : Binary64) : Nat × Nat :=
  scaleByTwo x.coefficient 1 x.exponent

def mul? (x y : Binary64) : Option Binary64 :=
  let a := x.ratio
  let b := y.ratio
  ofRatio? (x.isNegative != y.isNegative) (a.1 * b.1) (a.2 * b.2)

def div? (x y : Binary64) : Option Binary64 :=
  let a := x.ratio
  let b := y.ratio
  ofRatio? (x.isNegative != y.isNegative) (a.1 * b.2) (a.2 * b.1)

/-- The nearest double to a power of ten up to `10 ^ 308`. -/
def tenTo (power : Nat) : Binary64 :=
  ofNat false (Nat.pow 10 power)

/-- The nearest double to `digits · 10 ^ exponent`; nothing when it would be infinite. The powers
cut off on either side are far outside the finite range. -/
def ofDecimal? (negative : Bool) (digits : Nat) (exponent : Int) : Option Binary64 :=
  let size : Int := (Nat.log2 digits : Int) * 30103 / 100000 + exponent
  if digits = 0 || size < -400 then some (zero negative)
  else if size > 400 then none
  else if 0 ≤ exponent then ofRatio? negative (digits * Nat.pow 10 exponent.toNat) 1
  else ofRatio? negative digits (Nat.pow 10 (-exponent).toNat)

/-- A coefficient below `2 ^ 64` times a power of ten in two roundings, first of the coefficient
and then of its product or quotient with the rounded power. -/
def scaled? (negative : Bool) (coefficient : Nat) (power : Int) : Option Binary64 :=
  let base := ofNat negative coefficient
  if base.isZero then some base
  else if power > 308 then none
  else if 0 ≤ power then base.mul? (tenTo power.toNat)
  else if -308 ≤ power then base.div? (tenTo (-power).toNat)
  else (base.div? (tenTo 308)).bind fun tiny =>
    if tiny.isZero then some tiny
    else if -616 ≤ power then tiny.div? (tenTo (-power - 308).toNat)
    else some (zero negative)

end Binary64
end LakeSchema
