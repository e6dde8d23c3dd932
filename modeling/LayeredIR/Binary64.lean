/-! IEEE 754 double-precision numbers as their 64 bits. `key` places a number on the line with both
zeros at one point; `ieeeEq` and `compare?` are read off it and refuse a NaN. Equality of the
structure itself compares all 64 bits, so it tells the two zeros apart and lets a NaN equal
itself. -/
namespace LayeredIR

structure Binary64 where
  bits : UInt64
  deriving DecidableEq, Inhabited, Repr

namespace Binary64

def signBit : Nat := Nat.pow 2 63

def hiddenBit : Nat := Nat.pow 2 52

def magnitude (x : Binary64) : Nat := x.bits.toNat % signBit

def isNegative (x : Binary64) : Bool := decide (signBit ≤ x.bits.toNat)

def infinityMagnitude : Nat := 2047 * hiddenBit

def isNaN (x : Binary64) : Bool := decide (infinityMagnitude < x.magnitude)

def isInfinite (x : Binary64) : Bool := decide (x.magnitude = infinityMagnitude)

def isFinite (x : Binary64) : Bool := decide (x.magnitude < infinityMagnitude)

def isZero (x : Binary64) : Bool := decide (x.magnitude = 0)

def ofMagnitude (negative : Bool) (magnitude : Nat) : Binary64 :=
  ⟨UInt64.ofNat (if negative then signBit + magnitude else magnitude)⟩

def zero : Binary64 := ⟨0⟩

def nan : Binary64 := ofMagnitude false (infinityMagnitude + Nat.pow 2 51)

def key (x : Binary64) : Int :=
  if x.isNegative then -(x.magnitude : Int) else x.magnitude

def ieeeEq (x y : Binary64) : Bool :=
  !x.isNaN && !y.isNaN && x.key == y.key

def compare? (x y : Binary64) : Option Ordering :=
  if x.isNaN || y.isNaN then none else some (compare x.key y.key)

def significand (x : Binary64) : Nat :=
  if x.magnitude < hiddenBit then x.magnitude else hiddenBit + x.magnitude % hiddenBit

def exponent (x : Binary64) : Int :=
  if x.magnitude < hiddenBit then -1074 else (x.magnitude / hiddenBit : Nat) - 1075

def ofFloat (x : Float) : Binary64 := ⟨x.toBits⟩

def toFloat (x : Binary64) : Float := Float.ofBits x.bits

def negate (x : Binary64) : Binary64 := ofMagnitude (!x.isNegative) x.magnitude

def add (x y : Binary64) : Binary64 := ofFloat (x.toFloat + y.toFloat)

def sub (x y : Binary64) : Binary64 := ofFloat (x.toFloat - y.toFloat)

def mul (x y : Binary64) : Binary64 := ofFloat (x.toFloat * y.toFloat)

def div (x y : Binary64) : Binary64 := ofFloat (x.toFloat / y.toFloat)

end Binary64
end LayeredIR
