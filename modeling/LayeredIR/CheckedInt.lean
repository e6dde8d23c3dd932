/-! Arithmetic on 64-bit integers that gives the exact result or, where it does not fit, none. -/
namespace LayeredIR.CheckedInt

def ofInt? (n : Int) : Option Int64 :=
  if Int64.minValue.toInt ≤ n ∧ n ≤ Int64.maxValue.toInt then some (Int64.ofInt n) else none

def add? (a b : Int64) : Option Int64 := ofInt? (a.toInt + b.toInt)

def sub? (a b : Int64) : Option Int64 := ofInt? (a.toInt - b.toInt)

def mul? (a b : Int64) : Option Int64 := ofInt? (a.toInt * b.toInt)

def neg? (a : Int64) : Option Int64 := ofInt? (-a.toInt)

def div? (a b : Int64) : Option Int64 :=
  if b = 0 then none else ofInt? (a.toInt.tdiv b.toInt)

def rem? (a b : Int64) : Option Int64 :=
  (div? a b).map fun _ => Int64.ofInt (a.toInt.tmod b.toInt)

def toIndex? (a : Int64) : Option Nat :=
  if 0 ≤ a.toInt then some a.toInt.toNat else none

end LayeredIR.CheckedInt
