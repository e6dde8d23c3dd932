import LayeredIR.Binary64

/-! The shortest decimal that reads back to a number. The reals that round to a finite number form
an interval around it; grids of ever more digits are tried, and the first grid with a point in the
interval gives the digits, the nearer of its two points around the number being taken. -/
namespace LayeredIR.Binary64

structure Decimal where
  coefficient : Nat
  scale : Int
  deriving DecidableEq, Repr

inductive HalfWay
  | toEven
  | up
  deriving DecidableEq

/-- A positive number and the ends of the interval of reals that round to it, all counted in
quarters of the last place, and the size of such a quarter as a quotient. -/
structure Neighbourhood where
  low : Nat
  value : Nat
  high : Nat
  closed : Bool
  unitNum : Nat
  unitDen : Nat

/-- Below a power of two the numbers lie twice as dense. The ends belong to a number whose
significand is even. -/
def neighbourhood (x : Binary64) : Neighbourhood :=
  let m := x.significand
  let narrow := m = hiddenBit ∧ -1074 < x.exponent
  let quarter := x.exponent - 2
  { low := if narrow then 4 * m - 1 else 4 * m - 2
    value := 4 * m
    high := 4 * m + 2
    closed := m % 2 = 0
    unitNum := Nat.pow 2 quarter.toNat
    unitDen := Nat.pow 2 (-quarter).toNat }

def Neighbourhood.onGrid (n : Neighbourhood) (scale : Int) : Neighbourhood :=
  { n with
    unitNum := n.unitNum * Nat.pow 10 (-scale).toNat
    unitDen := n.unitDen * Nat.pow 10 scale.toNat }

def Neighbourhood.holds (n : Neighbourhood) (point : Nat) : Bool :=
  let low := n.low * n.unitNum
  let high := n.high * n.unitNum
  let position := point * n.unitDen
  if n.closed then low ≤ position && position ≤ high else low < position && position < high

def Neighbourhood.choose? (n : Neighbourhood) (half : HalfWay) : Option Nat :=
  let value := n.value * n.unitNum
  let below := value / n.unitDen
  let above := below + 1
  match n.holds below, n.holds above with
  | true, true =>
    let down := value - below * n.unitDen
    let up := above * n.unitDen - value
    if down < up then some below
    else if up < down then some above
    else match half with
      | .up => some above
      | .toEven => some (if below % 2 = 0 then below else above)
  | true, false => some below
  | false, true => some above
  | false, false => none

def leadingPlace (num den : Nat) : Int :=
  let estimate : Int := ((num.log2 : Int) - (den.log2 : Int)) * 30103 / 100000 - 1
  let reached (k : Int) : Bool := den * Nat.pow 10 k.toNat ≤ num * Nat.pow 10 (-k).toNat
  if reached (estimate + 2) then estimate + 3
  else if reached (estimate + 1) then estimate + 2
  else if reached estimate then estimate + 1
  else estimate

def Decimal.strip : Nat → Decimal → Decimal
  | 0, d => d
  | fuel + 1, d =>
    if d.coefficient % 10 = 0 then strip fuel ⟨d.coefficient / 10, d.scale + 1⟩ else d

/-- The shortest decimal of a finite number other than zero, without its sign. Seventeen digits
always suffice. -/
def shortest (x : Binary64) (half : HalfWay) : Decimal :=
  let n := x.neighbourhood
  let place := leadingPlace (n.value * n.unitNum) n.unitDen
  let found := (List.range 17).findSome? fun digits =>
    let scale := place - (digits + 1 : Nat)
    ((n.onGrid scale).choose? half).map fun point => Decimal.strip 18 ⟨point, scale⟩
  found.getD ⟨0, 0⟩

end LayeredIR.Binary64
