import LayeredIR.Binary64

/-! Rounding of exact quotients to the nearest number, ties to the even one, and the two operations
that rest on it: the remainder with the sign of the dividend, and the number nearest a decimal. -/
namespace LayeredIR.Binary64

def powerOfTwo (e : Int) : Nat × Nat :=
  (Nat.pow 2 e.toNat, Nat.pow 2 (-e).toNat)

def divideToEven (num den : Nat) : Nat :=
  let quotient := num / den
  let rest := num % den
  if 2 * rest < den then quotient
  else if den < 2 * rest then quotient + 1
  else quotient + quotient % 2

def roundingExponent (num den : Nat) : Int :=
  let estimate : Int := (num.log2 : Int) - (den.log2 : Int) - 53
  let (scale, unscale) := powerOfTwo estimate
  let fits := num * unscale < Nat.pow 2 53 * (den * scale)
  max (-1074) (if fits then estimate else estimate + 1)

/-- The magnitude nearest `num / den`; what is too large becomes infinite. A significand that
rounds up to `2 ^ 53` carries into the exponent by plain addition. -/
def nearestMagnitude (num den : Nat) : Nat :=
  if num = 0 then 0
  else
    let e := roundingExponent num den
    let (scale, unscale) := powerOfTwo e
    let significand := divideToEven (num * unscale) (den * scale)
    min infinityMagnitude ((e + 1074).toNat * hiddenBit + significand)

/-- The number nearest `coefficient * 10 ^ scale`. A power of ten beyond the range of the finite
numbers is not computed: what is below `10 ^ (-400)` is zero, what is above `10 ^ 400` infinite. -/
def ofDecimal (negative : Bool) (coefficient : Nat) (scale : Int) : Binary64 :=
  let digits : Int := coefficient.log2 / 3 + 1
  if coefficient = 0 ∨ scale + digits < -400 then ofMagnitude negative 0
  else if 400 < scale then ofMagnitude negative infinityMagnitude
  else ofMagnitude negative
    (nearestMagnitude (coefficient * Nat.pow 10 scale.toNat) (Nat.pow 10 (-scale).toNat))

def ofInt (n : Int) : Binary64 := ofDecimal (decide (n < 0)) n.natAbs 0

def rem (x y : Binary64) : Binary64 :=
  if x.isNaN || y.isNaN || x.isInfinite || y.isZero then nan
  else if y.isInfinite || x.isZero then x
  else
    let e := min x.exponent y.exponent
    let dividend := x.significand * Nat.pow 2 (x.exponent - e).toNat
    let divisor := y.significand * Nat.pow 2 (y.exponent - e).toNat
    let (scale, unscale) := powerOfTwo e
    ofMagnitude x.isNegative (nearestMagnitude (dividend % divisor * scale) unscale)

end LayeredIR.Binary64
